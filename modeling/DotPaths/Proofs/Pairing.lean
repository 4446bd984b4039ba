import DotPaths.Proofs.Invariant

/-! # Pairs

    In a parallel tick the dots meet in pairs.  Several masters and several
    others may wait on one cell, meetings change dots in the middle of a round,
    and new dots join the list that masters look through.  Nevertheless no dot
    is in two pairs, no dot that waits is lost, the master of a pair comes out
    with the result of the operation, and the list after the tick has the dots
    that are left in their old order, with the new ones behind them.
-/

namespace DotPaths

/-! ## What turns leave alone -/

/-- A turn changes no other dot that does not wait, and no dead one. -/
theorem Turn.act_keeps {w : World} {i k : Nat} {s s' : Scene} {d : Dot}
    (h : Turn.act w i s = .ok () s') (hd : s.dots[k]? = some d)
    (hphase : ∀ m, d.phase ≠ .meet m) (hk : k ≠ i ∨ d.phase = .dead) :
    s'.dots[k]? = some d := by
  have hlt := (List.getElem?_eq_some_iff.mp hd).1
  obtain ⟨d₀, hd₀, hcases⟩ := Turn.act_ok h
  by_cases hki : k = i
  · subst hki
    cases hd.symm.trans hd₀
    have hdead : d.phase = .dead := by
      rcases hk with hne | hdead
      · exact absurd rfl hne
      · exact hdead
    rcases hcases with ⟨-, hdots⟩ | ⟨c, rest, d', -, hdoes, hdots⟩
    · rw [hdots, Dot.die_of_dead hdead, List.getElem?_set_self hlt]
    · cases hdoes with
      | alone _ _ hsame =>
        rw [hdots, hsame hdead, Dot.settled_of_dead hdead,
          List.getElem?_set_self (by rw [List.length_append]; omega)]
      | wait hm => exact absurd hm (hphase _)
      | meet hm => exact absurd hm (hphase _)
  · rcases hcases with ⟨-, hdots⟩ | ⟨c, rest, d', -, hdoes, hdots⟩
    · rw [hdots, List.getElem?_set_ne (Ne.symm hki), hd]
    · rw [hdots, List.getElem?_set_ne (Ne.symm hki)]
      cases hdoes with
      | alone _ _ _ => rw [List.getElem?_append_left hlt, hd]
      | wait _ _ => exact hd
      | @meet m n j o _ _ _ _ _ ho hn _ =>
        -- The one that is met waits, and this one does not.
        have hkj : k ≠ j := by
          rintro rfl
          cases hd.symm.trans ho
          exact hphase n hn
        rw [List.getElem?_set_ne (Ne.symm hkj), hd]

/-! ## What comes out of a meeting -/

/-- The master of an encounter comes out with the result of the operation.  At
    an operator this is the answer for the numbers that the two take part with,
    in the place of the master's number.  At a switch only the direction
    changes, and it is upwards exactly if the other number is not zero. -/
def Encounter.Computes (e : Encounter) : Prop :=
  match e.mine.purpose with
  | .none => False
  | .square | .curly =>
    ∃ a, Operator.calculate (String.singleton e.cell.glyph) (e.master.stake e.mine)
        (e.other.stake e.theirs) = .ok a ∧
      e.result = e.master.setStake e.mine a.toNumber
  | .switch =>
    e.result = { e.master with dir := e.result.dir } ∧
      (e.result.dir = .up ↔ (e.other.stake e.theirs).isZero = false) ∧
      (e.result.dir ≠ .up → e.result.dir = e.master.dir)

theorem Encounter.Happens.computes {w : World} {dots dots' : List Dot} {i j : Nat} {e : Encounter}
    (h : e.Happens w dots i j dots') (hfits : e.mine.Fits e.cell e.master.dir) : e.Computes := by
  have hperformed := h.performed
  unfold Meeting.outcome at hperformed
  unfold Meeting.Fits at hfits
  unfold Encounter.Computes
  cases hp : e.mine.purpose with
  | none =>
    rw [hp] at hfits
    exact hfits
  | square | curly =>
    rw [hp] at hfits hperformed
    have hoperator : e.cell.kind.isOperator = true := by rw [hfits.1]; rfl
    simp only [hoperator, if_true] at hperformed
    split at hperformed
    · next a ha => exact ⟨a, ha, (Except.ok.inj hperformed).symm⟩
    · cases hperformed
  | switch =>
    rw [hp] at hfits hperformed
    have hresult := (Except.ok.inj hperformed).symm
    -- A master comes to a switch from the side.
    have hside : e.master.dir ≠ .up := by
      intro hup
      rcases hfits.2.mp h.is_master with hleft | hright
      · rw [hup] at hleft
        cases hleft
      · rw [hup] at hright
        cases hright
    cases hzero : (e.other.stake e.theirs).isZero with
    | true =>
      rw [hzero, if_pos rfl] at hresult
      rw [hresult]
      exact ⟨rfl, ⟨fun hup => absurd hup hside, fun hf => by cases hf⟩, fun _ => rfl⟩
    | false =>
      rw [hzero, if_neg (by simp)] at hresult
      rw [hresult]
      exact ⟨rfl, ⟨fun _ => rfl, fun _ => rfl⟩, fun hne => absurd rfl hne⟩

namespace Machine

/-- A dot that is left by a sweep stands behind those before it that are
    left. -/
theorem sweep_getElem? {n k : Nat} {dots : List Dot} {d : Dot} (hk : k < n)
    (hd : dots[k]? = some d) (hlive : d.isDead = false) :
    (sweep n dots)[((dots.take k).filter fun d => !d.isDead).length]? = some d := by
  obtain ⟨hlt, hget⟩ := List.getElem?_eq_some_iff.mp hd
  have hsplit : dots.take n = dots.take k ++ d :: (dots.drop (k + 1)).take (n - k - 1) := by
    calc dots.take n
        = (dots.take n).take k ++ (dots.take n).drop k := (List.take_append_drop k _).symm
      _ = dots.take k ++ (dots.drop k).take (n - k) := by
          rw [List.take_take, Nat.min_eq_left (by omega), List.drop_take]
      _ = dots.take k ++ (d :: dots.drop (k + 1)).take (n - k - 1 + 1) := by
          rw [List.drop_eq_getElem_cons hlt, hget, show n - k - 1 + 1 = n - k by omega]
      _ = dots.take k ++ d :: (dots.drop (k + 1)).take (n - k - 1) := by
          rw [List.take_succ_cons]
  unfold sweep
  rw [hsplit, List.filter_append, List.filter_cons_of_pos (by simp [hlive]), List.append_assoc]
  simp

section
variable {w : World} {c s t : Scene} {i j k n : Nat} {d : Dot} {e : Encounter}

/-- In the rest of a round, a dot stays as it is if it is dead, or if its turn
    is over and it does not wait. -/
theorem actAll_keeps (hin : i ≤ n) (hs : actAll w i c = .ok () s) (ht : actAll w n c = .ok () t)
    (hd : s.dots[k]? = some d) (hphase : ∀ m, d.phase ≠ .meet m)
    (hk : k < i ∨ d.phase = .dead) : t.dots[k]? = some d := by
  induction n generalizing t with
  | zero =>
    obtain rfl : i = 0 := by omega
    cases hs.symm.trans ht
    exact hd
  | succ n ih =>
    by_cases hi : i = n + 1
    · subst hi
      cases hs.symm.trans ht
      exact hd
    · obtain ⟨t₁, ht₁, hturn⟩ := actAll_succ_ok.mp ht
      refine Turn.act_keeps hturn (ih (by omega) ht₁) hphase ?_
      rcases hk with hk | hdead
      · exact .inl (by omega)
      · exact .inr hdead

/-! ## Pairs are disjoint -/

/-- Who meets has not met before. -/
theorem Meets.not_hasMet (hsteady : Steady w c.dots) (h : Meets w c i j e) :
    ¬ HasMet w c i i ∧ ¬ HasMet w c i j := by
  obtain ⟨hi, s, s', hs, -, he⟩ := h
  have hround := actAll_round hsteady (by omega) hs
  obtain ⟨-, -, -, -, hmaster, -⟩ := hround.of_waiting he.master_here he.master_waits
  obtain ⟨-, -, -, -, hother, -⟩ := hround.of_waiting he.other_here he.other_waits
  exact ⟨hmaster, hother⟩

/-- Two meetings in different turns have no dot in common. -/
theorem Meets.disjoint {i' j' : Nat} {e' : Encounter} (hsteady : Steady w c.dots)
    (h : Meets w c i j e) (h' : Meets w c i' j' e') (hne : i ≠ i') :
    j ≠ j' ∧ j ≠ i' ∧ i ≠ j' := by
  have hlater : ∀ {i j i' j' : Nat} {e e' : Encounter}, Meets w c i j e → Meets w c i' j' e' →
      i < i' → j ≠ j' ∧ j ≠ i' ∧ i ≠ j' := by
    intro i j i' j' e e' h h' hlt
    obtain ⟨hmaster, hother⟩ := h'.not_hasMet hsteady
    refine ⟨?_, ?_, ?_⟩
    · rintro rfl
      exact hother ⟨i, j, e, hlt, h, .inr rfl⟩
    · rintro rfl
      exact hmaster ⟨i, j, e, hlt, h, .inr rfl⟩
    · rintro rfl
      exact hother ⟨i, j, e, hlt, h, .inl rfl⟩
  rcases Nat.lt_or_gt_of_ne hne with hlt | hgt
  · exact hlater h h' hlt
  · obtain ⟨hj, hji, hij⟩ := hlater h' h hgt
    exact ⟨Ne.symm hj, Ne.symm hij, Ne.symm hji⟩

/-- A turn has at most one meeting. -/
theorem Meets.unique {j' : Nat} {e' : Encounter} (h : Meets w c i j e) (h' : Meets w c i j' e') :
    j = j' ∧ e = e' := by
  obtain ⟨hi, s, s', hs, hs', he⟩ := h
  exact he.unique ((meets_iff hi hs hs').mp h')

/-- The dot that is met takes part with the number that it chose to. -/
theorem Meets.other_stake (hsteady : Steady w c.dots) (h : Meets w c i j e) :
    ∃ o m, c.dots[j]? = some o ∧ o.phase = .meet m ∧ o.stake m = e.other.stake e.theirs := by
  obtain ⟨o, m, ho, hm, heq⟩ := h.other_chosen hsteady
  obtain ⟨-, _, _, -, -, he⟩ := h
  have hwaits := he.other_waits
  refine ⟨o, m, ho, hm, ?_⟩
  by_cases hj : j < i
  · rw [if_pos hj] at heq
    rw [heq] at hwaits ⊢
    rw [← Phase.meet.inj hwaits]
    rfl
  · rw [if_neg hj] at heq
    rw [heq] at hwaits ⊢
    rw [← Phase.meet.inj (hm.symm.trans hwaits)]

/-! ## The end of the round -/

/-- After the round, the master of a meeting is as the meeting left it, and the
    other dot is dead. -/
theorem Meets.at_end (h : Meets w c i j e) (hn : i < n) (ht : actAll w n c = .ok () t) :
    t.dots[i]? = some ({ e.result with phase := .travel }.move.settled w) ∧
      t.dots[j]? = some e.other.die := by
  obtain ⟨-, s, s', hs, hturn, he⟩ := h
  -- From the end of this turn on, neither of the two is touched.
  have hs' : actAll w (i + 1) c = .ok () s' := actAll_succ_ok.mpr ⟨s, hs, hturn⟩
  constructor
  · refine actAll_keeps hn hs' ht he.master_after ?_ (.inl (by omega))
    exact Dot.settled_ne_meet fun m => Phase.noConfusion
  · refine actAll_keeps hn hs' ht he.other_after ?_ (.inr rfl)
    intro m hm
    cases hm

/-- Nobody is met twice, and nobody who is met meets somebody itself. -/
theorem Meets.once {i' j' : Nat} {e' : Encounter} (hsteady : Steady w c.dots)
    (h : Meets w c i j e) (h' : Meets w c i' j' e') : j ≠ i' ∧ (j = j' → i = i' ∧ e = e') := by
  by_cases hi : i = i'
  · subst hi
    have hunique := h.unique h'
    obtain ⟨-, _, _, -, -, he⟩ := h
    exact ⟨Ne.symm he.ne, fun _ => ⟨rfl, hunique.2⟩⟩
  · obtain ⟨hjj, hji, -⟩ := h.disjoint hsteady h' hi
    exact ⟨hji, fun hj => absurd hj hjj⟩

/-- Whoever waits and meets nobody is still there after the tick. -/
theorem Ticks.waits_on {s' : Scene} {m : Meeting} (h : Ticks w s c t s')
    (hd : c.dots[k]? = some d) (hphase : d.phase = .meet m)
    (hnone : ∀ i j e, Meets w c i j e → k ≠ i ∧ k ≠ j) :
    s'.dots[((t.dots.take k).filter fun d => !d.isDead).length]? = some (d.waitOn m) := by
  have hlt := (List.getElem?_eq_some_iff.mp hd).1
  have hnot : ¬ HasMet w c c.dots.length k := by
    rintro ⟨i, j, e, -, hm, hk⟩
    obtain ⟨hki, hkj⟩ := hnone i j e hm
    rcases hk with hk | hk
    · exact hki hk
    · exact hkj hk
  obtain ⟨d', hd', hstanding⟩ := h.round.dot k d hd
  have heq := hstanding.waiting m hphase hnot
  rw [if_pos hlt] at heq
  rw [heq] at hd'
  rw [h.dots, ← h.length]
  exact sweep_getElem? hlt hd' (Dot.isDead_of_meet rfl)

end

/-- The tick that goes from the choices `c` through the end `t` of the round to
    the scene `s'` makes pairs of dots and loses none. -/
structure PairsUp (w : World) (c t s' : Scene) : Prop where
  /-- Nobody is met twice, and nobody who is met meets somebody itself. -/
  once : ∀ i j e i' j' e', Meets w c i j e → Meets w c i' j' e' →
    j ≠ i' ∧ (j = j' → i = i' ∧ e = e')
  /-- Whoever is met is dead when the round is over. -/
  gone : ∀ i j e, Meets w c i j e → t.dots[j]? = some e.other.die
  /-- Whoever waits and is in no pair is still there, and waits on. -/
  waits : ∀ k d m, c.dots[k]? = some d → d.phase = .meet m →
    (∀ i j e, Meets w c i j e → k ≠ i ∧ k ≠ j) →
    s'.dots[((t.dots.take k).filter fun d => !d.isDead).length]? = some (d.waitOn m)
  /-- A master goes on with the result for the numbers that the two chose to
      take part with. -/
  result : ∀ i j e, Meets w c i j e →
    c.dots[i]? = some e.master ∧
    (∃ o n, c.dots[j]? = some o ∧ o.phase = .meet n ∧ o.stake n = e.other.stake e.theirs) ∧
    e.Computes ∧
    t.dots[i]? = some ({ e.result with phase := .travel }.move.settled w)
  /-- The list has the dots that are left, in order, and then the new ones. -/
  list : s'.dots = (t.dots.take c.dots.length).filter (fun d => !d.isDead) ++
    c.dots.flatMap (Dot.copies w)

/-- In every scene that a program can come to, a parallel tick that completes
    makes pairs of dots and loses none. -/
theorem tick_pairsUp {w : World} {s s' : Scene} (h : Reachable w s)
    (htick : parallelTick w s = .ok () s') : ∃ c t, Ticks w s c t s' ∧ PairsUp w c t s' := by
  obtain ⟨c, t, hticks⟩ := parallelTick_ok_iff.mp htick
  have hsteady := steady_chooseAll hticks.choosing
  have hplaced := (keeps_chooseAll h.allStand).allStand hticks.choosing
  have hacting : actAll w c.dots.length c = .ok () t := by rw [hticks.length]; exact hticks.acting
  refine ⟨c, t, hticks, ?_, ?_, ?_, ?_, ?_⟩
  · intro i j e i' j' e' hm hm'
    exact hm.once hsteady hm'
  · intro i j e hm
    exact (hm.at_end hm.1 hacting).2
  · intro k d m hd hphase hnone
    exact hticks.waits_on hd hphase hnone
  · intro i j e hm
    have hmaster := hm.master_chosen hsteady
    have hcomputes : e.Computes := by
      obtain ⟨-, _, _, -, -, he⟩ := hm
      exact he.computes ((hplaced.get hmaster).poised.fits _ _ he.master_waits he.on_cell)
    exact ⟨hmaster, hm.other_stake hsteady, hcomputes, (hm.at_end hm.1 hacting).1⟩
  · have hnew := hticks.round.new
    rw [List.take_length] at hnew
    rw [hticks.dots, ← hticks.length, sweep, hnew]

/-- A dot with the value two comes to an operator from above, and one with the
    value one from the left. -/
def onePlusTwo : String :=
  "      .\n      |\n      #\n      2\n      |\n      |\n.-#1-[+]\n      |"

/-- In the seventh tick the two meet, and the upper one goes on with the value
    three. -/
theorem pairsUp_at_onePlusTwo :
    ∃ m s c t s' e, launchAlone onePlusTwo = (m, none) ∧ Reachable m.world s ∧
      parallelTick m.world s = .ok () s' ∧ Ticks m.world s c t s' ∧ Meets m.world c 0 1 e ∧
      t.dots.map Dot.value = [.int 3, .int 1] ∧ PairsUp m.world c t s' := by
  have htrial : trial onePlusTwo 6 (fun _ c t =>
      decide (0 < c.dots.length) && Meeting.oldest? ⟨6, 6⟩ true c.dots == some 0 &&
        Meeting.oldest? ⟨6, 6⟩ false c.dots == some 1 &&
        decide (t.dots.map Dot.value = [.int 3, .int 1])) = true := by
    decide +kernel
  obtain ⟨m, s, c, t, s', hm, hs, htick, hcheck⟩ := exists_of_trial htrial
  simp only [Bool.and_eq_true, beq_iff_eq, decide_eq_true_eq] at hcheck
  obtain ⟨⟨⟨hlt, hmaster⟩, hother⟩, hvalues⟩ := hcheck
  have hreach : Reachable m.world s := (Reachable.launched hm rfl).loop hs
  have hs' := parallelTick_ok_iff.mpr ⟨c, t, htick⟩
  have hsteady := steady_chooseAll htick.choosing
  obtain ⟨u, u', hu, hturn⟩ := actAll_turn htick.acting (show 0 < s.dots.length by
    rw [← htick.length]; exact hlt)
  cases hu
  obtain ⟨e, hmeets, -⟩ := meets_of_oldest hsteady hlt rfl hturn hmaster hother
  obtain ⟨c', t', htick', hpairs⟩ := tick_pairsUp hreach hs'
  cases htick.choosing.symm.trans htick'.choosing
  cases htick.acting.symm.trans htick'.acting
  exact ⟨m, s, c, t, s', e, hm, hreach, hs', htick, hmeets, hvalues, hpairs⟩

end Machine

end DotPaths
