import DotPaths.Proofs.Contention

/-! # What a round makes of the dots

    The turns of a round come one after the other, and a master looks at dots that
    may have had their turns already.  But where those that wait at a cell are
    orderly, what becomes of a dot there is settled by what all dots chose, and the
    order of the turns has no part in it.

    - `Dot.afterRound?`: what becomes of a dot, from what all dots chose.
    - `dot_at_end`: after the round a dot is that, if the dots that wait at its cell
      are orderly.  What happens at other cells has no part in it.
    - `actAll_completes`: if it is known of every dot what becomes of it, the round
      completes and leaves the console alone.
-/

namespace DotPaths

/-! ## What becomes of a dot -/

/-- A deed that neither prints nor reads. -/
def Deed.isSilent : Deed → Bool
  | .print .. | .read .. => false
  | _ => true

/-- What a deed makes of its dot, if it needs neither a second dot nor the
    console. -/
def Deed.result? : Deed → Option Dot
  | .become d => some d
  | .branch _ d => some d
  | _ => none

theorem Deed.result?_eq_some {deed : Deed} {d : Dot} (h : deed.result? = some d) :
    deed = .become d ∨ ∃ new, deed = .branch new d := by
  unfold Deed.result? at h
  split at h
  · cases h
    exact .inl rfl
  · next new r =>
    cases h
    exact .inr ⟨new, rfl⟩
  · cases h

theorem Phase.eq_meet_of_meeting? {p : Phase} {m : Meeting} (h : p.meeting? = some m) :
    p = .meet m := by
  cases p with
  | meet m' =>
    cases h
    rfl
  | _ => cases h

namespace Dot

/-- The deed of the dot on its cell neither prints nor reads. -/
def isSilent (w : World) (d : Dot) : Bool :=
  (w.cell? d.pos).all fun c => (d.deed w c).isSilent

/-- The number that a dot brings to a meeting. -/
def offer (d : Dot) : Number :=
  match d.phase.meeting? with
  | some m => d.stake m
  | none => d.value

/-- What becomes of a dot in a round where those that wait at its cell are orderly,
    from what all dots chose.  This is not settled if its deed stops the run or needs
    the console. -/
def afterRound? (w : World) (dots : List Dot) (d : Dot) : Option Dot :=
  match w.cell? d.pos with
  | none => some d.die
  | some c =>
    match d.phase.meeting? with
    | none => (d.deed w c).result?.map (settled w)
    | some m =>
      match pair? d.pos dots with
      | none => some (d.waitOn m)
      | some (_, o) =>
        if m.master then
          (m.outcome c d o.offer).toOption.map fun r => { r with phase := .travel }.move.settled w
        else if o = d then some d.die
        else some (d.waitOn m)

variable {w : World} {c : Cell} {d : Dot} {m : Meeting} {dots dots' : List Dot}

theorem meeting?_eq_none (h : ∀ m, d.phase ≠ .meet m) : d.phase.meeting? = none := by
  cases hphase : d.phase with
  | meet m => exact absurd hphase (h m)
  | _ => rfl

theorem offer_of_meet (h : d.phase = .meet m) : d.offer = d.stake m := by
  simp [offer, h, Phase.meeting?]

/-- Waiting on changes nothing about what a dot brings along. -/
theorem offer_waitOn (h : d.phase = .meet m) : (d.waitOn m).offer = d.offer := by
  rw [offer_of_meet h, offer_of_meet (waitOn_phase d m)]
  rfl

theorem afterRound?_outside (hc : w.cell? d.pos = none) : d.afterRound? w dots = some d.die := by
  simp [afterRound?, hc]

theorem afterRound?_alone (hc : w.cell? d.pos = some c) (h : ∀ m, d.phase ≠ .meet m) :
    d.afterRound? w dots = (d.deed w c).result?.map (settled w) := by
  simp [afterRound?, hc, meeting?_eq_none h]

theorem afterRound?_unpaired (hc : w.cell? d.pos = some c) (h : d.phase = .meet m)
    (hnone : pair? d.pos dots = none) : d.afterRound? w dots = some (d.waitOn m) := by
  simp [afterRound?, hc, h, Phase.meeting?, hnone]

theorem afterRound?_master {a o : Dot} (hc : w.cell? d.pos = some c) (h : d.phase = .meet m)
    (hmaster : m.master = true) (hpair : pair? d.pos dots = some (a, o)) :
    d.afterRound? w dots = (m.outcome c d o.offer).toOption.map fun r =>
      { r with phase := .travel }.move.settled w := by
  simp [afterRound?, hc, h, Phase.meeting?, hmaster, hpair]

theorem afterRound?_other {a : Dot} (hc : w.cell? d.pos = some c) (h : d.phase = .meet m)
    (hmaster : m.master = false) (hpair : pair? d.pos dots = some (a, d)) :
    d.afterRound? w dots = some d.die := by
  simp [afterRound?, hc, h, Phase.meeting?, hmaster, hpair]

theorem afterRound?_behind {a o : Dot} (hc : w.cell? d.pos = some c) (h : d.phase = .meet m)
    (hmaster : m.master = false) (hpair : pair? d.pos dots = some (a, o)) (hne : o ≠ d) :
    d.afterRound? w dots = some (d.waitOn m) := by
  simp [afterRound?, hc, h, Phase.meeting?, hmaster, hpair, hne]

/-- It depends on the other dots only by who meets at the cell. -/
theorem afterRound?_congr (h : pair? d.pos dots = pair? d.pos dots') :
    d.afterRound? w dots = d.afterRound? w dots' := by
  unfold afterRound?
  rw [h]

end Dot

/-! ## Turns that leave the console alone -/

namespace Turn

open Scene

variable {w : World} {i : Nat} {s s' : Scene} {d : Dot} {c : Cell}

theorem settle_apply (hd : s.dots[i]? = some d) :
    settle w i s = .ok () { s with dots := s.dots.set i (d.settled w) } := by
  have hsettle : settle w i s = (if isLost w d then setDot i d.die else pure ()) s :=
    bind_of_ok (dotAt_apply hd)
  rw [hsettle]
  cases hlost : isLost w d with
  | true =>
    rw [Dot.settled_of_lost hlost]
    rfl
  | false =>
    rw [Dot.settled_of_not_lost hlost]
    obtain ⟨hi, rfl⟩ := List.getElem?_eq_some_iff.mp hd
    simp
    rfl

/-- A turn is its deed, and then the dot settles. -/
theorem act_of_perform {t : Scene} {d' : Dot} (hd : s.dots[i]? = some d)
    (hc : w.cell? d.pos = some c) (hp : perform c i (d.deed w c) s = .ok () t)
    (hd' : t.dots[i]? = some d') :
    act w i s = .ok () { t with dots := t.dots.set i (d'.settled w) } := by
  unfold act
  rw [bind_of_ok (dotAt_apply hd)]
  simp only [hc]
  rw [bind_of_ok hp]
  exact settle_apply hd'

/-- Outside the drawing a turn ends the dot. -/
theorem act_outside (hd : s.dots[i]? = some d) (hc : w.cell? d.pos = none) :
    act w i s = .ok () { s with dots := s.dots.set i d.die } := by
  unfold act
  rw [bind_of_ok (dotAt_apply hd)]
  simp only [hc]
  rfl

/-- A deed with a result is performed without the console, and gives it. -/
theorem act_result {d' : Dot} (hd : s.dots[i]? = some d) (hc : w.cell? d.pos = some c)
    (hresult : (d.deed w c).result? = some d') :
    ∃ dots, act w i s = .ok () { s with dots := dots } ∧ dots[i]? = some (d'.settled w) := by
  have hi := (List.getElem?_eq_some_iff.mp hd).1
  have hperform : ∃ dots : List Dot, i < dots.length ∧
      perform c i (d.deed w c) s = .ok () { s with dots := dots.set i d' } := by
    rcases Deed.result?_eq_some hresult with hdeed | ⟨new, hdeed⟩
    · rw [hdeed]
      exact ⟨s.dots, hi, rfl⟩
    · rw [hdeed]
      refine ⟨s.dots ++ new, ?_, rfl⟩
      rw [List.length_append]
      omega
  obtain ⟨dots, hlt, hp⟩ := hperform
  have hact := act_of_perform hd hc hp (List.getElem?_set_self hlt)
  refine ⟨_, hact, ?_⟩
  simp only [List.set_set]
  exact List.getElem?_set_self hlt

/-- The deed of a silent dot that waits for nobody has a result, if its turn
    completes. -/
theorem result_of_act (h : act w i s = .ok () s') (hd : s.dots[i]? = some d)
    (hc : w.cell? d.pos = some c) (hphase : ∀ m, d.phase ≠ .meet m)
    (hsilent : d.isSilent w = true) : ∃ d', (d.deed w c).result? = some d' := by
  have hdeed : (d.deed w c).isSilent = true := by
    simpa [Dot.isSilent, hc] using hsilent
  have hnomeet := (Dot.deed_goesOn hphase hc).ne_meet
  cases heq : d.deed w c with
  | become r => exact ⟨r, rfl⟩
  | branch new r => exact ⟨r, rfl⟩
  | print p before after =>
    rw [heq] at hdeed
    cases hdeed
  | read byCode after =>
    rw [heq] at hdeed
    cases hdeed
  | meet m => exact absurd heq (hnomeet m)
  | stop r why =>
    -- Such a deed stops the run.
    unfold act at h
    simp only [bind_ok_iff, dotAt_ok_iff] at h
    obtain ⟨d₁, _, ⟨hd₁, rfl⟩, h⟩ := h
    cases hd.symm.trans hd₁
    simp only [hc, heq, perform, bind_ok_iff] at h
    obtain ⟨_, _, ⟨_, _, -, h⟩, -⟩ := h
    exact absurd h throw_ne_ok

/-- A dot that is no master waits on, and so does a master whose turn it is not
    or that has nobody to meet. -/
theorem perform_wait {m : Meeting} (hd : s.dots[i]? = some d)
    (h : m.master = true → Meeting.oldest? d.pos true s.dots = some i →
      Meeting.oldest? d.pos false s.dots = none) :
    Meeting.perform c i m s = .ok () { s with dots := s.dots.set i (d.waitOn m) } := by
  have hget : (get : Act Scene) s = .ok s s := rfl
  unfold Meeting.perform
  rw [bind_of_ok (dotAt_apply hd), bind_of_ok hget]
  by_cases hmaster : m.master = true
  · rw [if_pos hmaster]
    by_cases hfirst : Meeting.oldest? d.pos true s.dots = some i
    · rw [h hmaster hfirst]
      rfl
    · cases Meeting.oldest? d.pos false s.dots with
      | none => rfl
      | some j =>
        simp only [if_neg hfirst]
        rfl
  · rw [if_neg hmaster]
    rfl

/-- The foremost master meets the oldest other, if the operation succeeds. -/
theorem perform_meet {m : Meeting} {o r : Dot} {j : Nat} (hd : s.dots[i]? = some d)
    (hmaster : m.master = true) (hfirst : Meeting.oldest? d.pos true s.dots = some i)
    (hother : Meeting.oldest? d.pos false s.dots = some j) (ho : s.dots[j]? = some o)
    (hout : m.outcome c d o.offer = .ok r) :
    Meeting.perform c i m s = .ok () { s with
      dots := (s.dots.set j o.die).set i { r with phase := .travel }.move } := by
  have hget : (get : Act Scene) s = .ok s s := rfl
  unfold Meeting.perform
  rw [bind_of_ok (dotAt_apply hd), bind_of_ok hget, if_pos hmaster, hother]
  simp only [if_pos hfirst]
  rw [bind_of_ok (dotAt_apply ho)]
  show (orFail (m.outcome c d o.offer) >>= _) s = _
  rw [hout]
  rfl

/-- The turn of a waiting dot completes and leaves the console alone, unless it
    meets a dot and the operation fails. -/
theorem act_meet {m : Meeting} (hd : s.dots[i]? = some d) (hc : w.cell? d.pos = some c)
    (hphase : d.phase = .meet m)
    (hout : ∀ j o, m.master = true → Meeting.oldest? d.pos false s.dots = some j →
      s.dots[j]? = some o → ∃ r, m.outcome c d o.offer = .ok r) :
    ∃ dots, act w i s = .ok () { s with dots := dots } := by
  have hi := (List.getElem?_eq_some_iff.mp hd).1
  have hdeed : d.deed w c = .meet m := by simp [Dot.deed, hphase]
  -- It is enough that the meeting is performed and the dot is still there.
  have hperform : ∀ dots d', Meeting.perform c i m s = .ok () { s with dots := dots } →
      dots[i]? = some d' → ∃ dots, act w i s = .ok () { s with dots := dots } := by
    intro dots d' hp hd'
    have hp' : perform c i (d.deed w c) s = .ok () { s with dots := dots } := by
      rw [hdeed]
      exact hp
    have hact := act_of_perform hd hc hp' hd'
    exact ⟨_, hact⟩
  by_cases hmeets : m.master = true ∧ Meeting.oldest? d.pos true s.dots = some i ∧
      ∃ j, Meeting.oldest? d.pos false s.dots = some j
  · obtain ⟨hmaster, hfirst, j, hother⟩ := hmeets
    obtain ⟨o, n, ho, -, -, -⟩ := Meeting.exists_of_oldest? hother
    obtain ⟨r, hr⟩ := hout j o hmaster hother ho
    have hp := perform_meet hd hmaster hfirst hother ho hr
    exact hperform _ _ hp (List.getElem?_set_self (by simpa using hi))
  · have hwait : m.master = true → Meeting.oldest? d.pos true s.dots = some i →
        Meeting.oldest? d.pos false s.dots = none := by
      intro hmaster hfirst
      rw [Option.eq_none_iff_forall_ne_some]
      intro j hother
      exact hmeets ⟨hmaster, hfirst, j, hother⟩
    exact hperform _ _ (perform_wait hd hwait) (List.getElem?_set_self hi)

end Turn

/-! ## Who meets in a round -/

namespace Machine

open Meeting (waited? oldest? oldest?_eq_some_iff)

variable {w : World} {c s t : Scene} {i j k : Nat} {p : Pos} {d a o : Dot} {e : Encounter}

theorem Meets.master_waitsAt (hsteady : Steady w c.dots) (h : Meets w c i j e) :
    c.dots[i]? = some e.master ∧ e.master.waitsAt e.master.pos true = true := by
  have hchosen := h.master_chosen hsteady
  obtain ⟨-, _, _, -, -, he⟩ := h
  exact ⟨hchosen, Dot.waitsAt_iff.mpr ⟨e.mine, he.master_waits, rfl, he.is_master⟩⟩

theorem Meets.other_waitsAt (hsteady : Steady w c.dots) (h : Meets w c i j e) :
    ∃ o n, c.dots[j]? = some o ∧ o.phase = .meet n ∧ n.master = false ∧ o.pos = e.master.pos ∧
      o.offer = e.other.stake e.theirs ∧ e.other.die = o.die := by
  obtain ⟨o, n, ho, hn, heq⟩ := h.other_chosen hsteady
  obtain ⟨o', n', ho', hn', hstake⟩ := h.other_stake hsteady
  cases ho.symm.trans ho'
  cases hn.symm.trans hn'
  obtain ⟨-, _, _, -, -, he⟩ := h
  -- If it had its turn before, it has waited one turn more by then, and that is all.
  have hwaits := he.other_waits
  have hrole := he.not_master
  have hplace := he.same_place
  rw [heq] at hwaits hplace
  refine ⟨o, n, ho, hn, ?_, ?_, ?_, ?_⟩
  · by_cases hji : j < i
    · rw [if_pos hji] at hwaits
      rw [← Phase.meet.inj hwaits] at hrole
      exact hrole
    · rw [if_neg hji] at hwaits
      rw [Phase.meet.inj (hn.symm.trans hwaits)]
      exact hrole
  · by_cases hji : j < i
    · rw [if_pos hji] at hplace
      exact hplace
    · rw [if_neg hji] at hplace
      exact hplace
  · rw [Dot.offer_of_meet hn, hstake]
  · rw [heq]
    by_cases hji : j < i
    · rw [if_pos hji]
      rfl
    · rw [if_neg hji]

/-- Where there is only one master, it is the one who meets. -/
theorem Meets.eq_master (hsteady : Steady w c.dots) (horder : OrderlyAt p c.dots)
    (hi : c.dots[i]? = some a) (ha : a.waitsAt p true = true) (h : Meets w c k j e)
    (hpos : e.master.pos = p) : k = i := by
  obtain ⟨hk, hwaits⟩ := h.master_waitsAt hsteady
  rw [hpos] at hwaits
  exact horder.master_unique hk hi hwaits ha

/-- Before the first meeting at a cell, the oldest that waits there is the eldest of
    those that chose to: counting can move the ages by one only. -/
theorem Round.isEldest (hsteady : Steady w c.dots) (horder : OrderlyAt p c.dots)
    (h : Round w c i s) (hfirst : ∀ l j e, l < i → Meets w c l j e → e.master.pos ≠ p)
    (hold : oldest? p false s.dots = some j) :
    ∃ o, c.dots[j]? = some o ∧ IsEldest p false c.dots o := by
  have hwaited : ∀ {k a}, waited? p false s.dots k = some a ↔
      ∃ b, waited? p false c.dots k = some b ∧ a = b + if k < i then 1 else 0 :=
    h.waited?_before hsteady hfirst
  obtain ⟨n, hn⟩ := oldest?_eq_some_iff.mp hold
  obtain ⟨b, hb, hnb⟩ := hwaited.mp hn.waits
  obtain ⟨o, ho, hwaits, hage⟩ := waitsAt_of_waited? hb
  refine ⟨o, ho, List.mem_of_getElem? ho, hwaits, ?_⟩
  intro a ha hwaits'
  obtain ⟨k, hk⟩ := List.mem_iff_getElem?.mp ha
  by_cases hkj : k = j
  · subst hkj
    exact .inl (Option.some.inj (hk.symm.trans ho))
  · have hle := hn.longest k _ (hwaited.mpr ⟨a.age, waited?_of_waitsAt hk hwaits', rfl⟩)
    have hspaced := horder.spaced hkj hk ho hwaits' hwaits
    right
    split at hnb <;> omega

/-- Where two are to meet, they do, and nobody else meets there. -/
theorem meets_of_pair? (hsteady : Steady w c.dots) (horder : OrderlyAt p c.dots)
    (ht : actAll w c.dots.length c = .ok () t) (hpair : pair? p c.dots = some (a, o)) :
    ∃ i j e, c.dots[i]? = some a ∧ c.dots[j]? = some o ∧ Meets w c i j e ∧ e.master = a ∧
      e.other.die = o.die ∧ e.other.stake e.theirs = o.offer ∧
      ∀ i' j' e', Meets w c i' j' e' → e'.master.pos = p → i' = i ∧ j' = j := by
  obtain ⟨ha, ho⟩ := pair?_eq_some_iff.mp hpair
  have hmaster := isEldest_of_eldest? horder ha
  have hother := isEldest_of_eldest? horder ho
  obtain ⟨i, hi⟩ := List.mem_iff_getElem?.mp hmaster.mem
  obtain ⟨j, hj⟩ := List.mem_iff_getElem?.mp hother.mem
  -- The only master is foremost, so somebody meets here; and it can only be this master.
  have honly : ∀ l b, waited? p true c.dots l = some b → i = l := by
    intro l b hb
    obtain ⟨a', ha', hwaits, -⟩ := waitsAt_of_waited? hb
    exact horder.master_unique hi ha' hmaster.waits hwaits
  have hforemost : IsForemost p c.dots i := by
    refine ⟨a.age, waited?_of_waitsAt hi hmaster.waits, ?_, ?_⟩
    · intro l b hlt hb
      have := honly l b hb
      omega
    · intro l b hlt hb
      have := honly l b hb
      omega
  have hhere : ∀ {i' j' e'}, Meets w c i' j' e' → e'.master.pos = p → i' = i :=
    fun hmeets hpos => hmeets.eq_master hsteady horder hi hmaster.waits hpos
  obtain ⟨i', j', e, hmeets, hpos⟩ := meets_of_foremost hsteady ht rfl hforemost
    ⟨j, o.age, waited?_of_waitsAt hj hother.waits⟩
  obtain rfl := hhere hmeets hpos
  -- The one that is met is the eldest.
  have hsame : j' = j := by
    obtain ⟨s, s', hs, -⟩ := actAll_turn ht hmeets.1
    have hround := actAll_round hsteady (Nat.le_of_lt hmeets.1) hs
    have hfirst : ∀ l k e, l < i' → Meets w c l k e → e.master.pos ≠ p := by
      intro l k e hl hm hat
      have := hhere hm hat
      omega
    have hold := (hmeets.oldest hsteady hs).2
    rw [hpos] at hold
    obtain ⟨o', hj', heldest⟩ := hround.isEldest hsteady horder hfirst hold
    rw [heldest.unique hother] at hj'
    exact horder.index_eq hj' hj hother.waits
  subst hsame
  obtain ⟨hi', -⟩ := hmeets.master_waitsAt hsteady
  obtain ⟨o', n, hj', -, -, -, hoffer, hdie⟩ := hmeets.other_waitsAt hsteady
  cases hi.symm.trans hi'
  cases hj.symm.trans hj'
  refine ⟨i', j', e, hi, hj, hmeets, rfl, hdie, hoffer.symm, ?_⟩
  intro i₂ j₂ e₂ hmeets₂ hpos₂
  obtain rfl := hhere hmeets₂ hpos₂
  exact ⟨rfl, (hmeets₂.unique hmeets).1⟩

/-- Whoever has met was the master or the other one, as it chose. -/
theorem HasMet.by_role {m : Meeting} {n : Nat} (hsteady : Steady w c.dots) (h : HasMet w c n k)
    (hd : c.dots[k]? = some d) (hm : d.phase = .meet m) :
    (m.master = true ∧ ∃ j e, Meets w c k j e ∧ e.master = d) ∨
      (m.master = false ∧ ∃ i e, Meets w c i k e ∧ e.master.pos = d.pos) := by
  obtain ⟨i, j, e, -, hmeets, hik⟩ := h
  rcases hik with rfl | rfl
  · obtain ⟨hi, hwaits⟩ := hmeets.master_waitsAt hsteady
    cases hd.symm.trans hi
    obtain ⟨m', hm', -, hrole⟩ := Dot.waitsAt_iff.mp hwaits
    cases hm.symm.trans hm'
    exact .inl ⟨hrole, j, e, hmeets, rfl⟩
  · obtain ⟨o, n, hj, hn, hrole, hplace, -, -⟩ := hmeets.other_waitsAt hsteady
    cases hd.symm.trans hj
    cases hm.symm.trans hn
    exact .inr ⟨hrole, i, e, hmeets, hplace.symm⟩

/-- Where no two are to meet, nobody does. -/
theorem not_hasMet_of_unpaired {m : Meeting} {n : Nat} (hsteady : Steady w c.dots)
    (hd : c.dots[k]? = some d) (hm : d.phase = .meet m) (hnone : pair? d.pos c.dots = none) :
    ¬ HasMet w c n k := by
  have hnobody := waitsAt_of_pair?_eq_none hnone (List.mem_of_getElem? hd)
    (Dot.waitsAt_iff.mpr ⟨m, hm, rfl, rfl⟩)
  intro h
  rcases h.by_role hsteady hd hm with ⟨hmaster, j, e, hmeets, rfl⟩ | ⟨hmaster, i, e, hmeets, hpos⟩
  · obtain ⟨o, n, hj, hn, hrole, hplace, -, -⟩ := hmeets.other_waitsAt hsteady
    have hwaits : o.waitsAt e.master.pos (!m.master) = true :=
      Dot.waitsAt_iff.mpr ⟨n, hn, hplace, by simp [hrole, hmaster]⟩
    rw [hnobody o (List.mem_of_getElem? hj)] at hwaits
    cases hwaits
  · obtain ⟨hi, hwaits⟩ := hmeets.master_waitsAt hsteady
    have hnot := hnobody e.master (List.mem_of_getElem? hi)
    rw [hmaster, Bool.not_false, ← hpos, hwaits] at hnot
    cases hnot

/-! ## The end of the round -/

/-- A dot that waits and is not one of those who meet at its cell waits on. -/
theorem waits_on_of_not_met {m : Meeting} (hsteady : Steady w c.dots)
    (ht : actAll w c.dots.length c = .ok () t) (hd : c.dots[k]? = some d) (hm : d.phase = .meet m)
    (hnot : ¬ HasMet w c c.dots.length k) : t.dots[k]? = some (d.waitOn m) := by
  have hk := (List.getElem?_eq_some_iff.mp hd).1
  have hround := actAll_round hsteady (Nat.le_refl _) ht
  obtain ⟨d', hd', hstanding⟩ := hround.dot k d hd
  have heq := hstanding.waiting m hm hnot
  rw [if_pos hk] at heq
  rw [← heq]
  exact hd'

section waiting
variable {m : Meeting} {x : Cell} (hsteady : Steady w c.dots) (horder : OrderlyAt d.pos c.dots)
  (ht : actAll w c.dots.length c = .ok () t) (hd : c.dots[k]? = some d) (hm : d.phase = .meet m)
include hsteady horder ht hd hm

/-- The master of the two that meet becomes what the meeting computes. -/
theorem master_at_end (hc : w.cell? d.pos = some x) (hmaster : m.master = true)
    (hpair : pair? d.pos c.dots = some (a, o)) :
    ∃ d', d.afterRound? w c.dots = some d' ∧ t.dots[k]? = some d' := by
  obtain ⟨i, j, e, hi, -, hmeets, hea, -, hstake, -⟩ := meets_of_pair? hsteady horder ht hpair
  have ha := isEldest_of_eldest? horder (pair?_eq_some_iff.mp hpair).1
  -- There is one master only.
  obtain rfl := horder.master_unique hd hi (Dot.waitsAt_iff.mpr ⟨m, hm, rfl, hmaster⟩) ha.waits
  cases hd.symm.trans hi
  have hout := (hmeets.at_end hmeets.1 ht).1
  obtain ⟨-, _, _, -, -, he⟩ := hmeets
  have hperformed := he.performed
  have hmine := he.master_waits
  have hcell := he.on_cell
  rw [hea] at hperformed hmine hcell
  cases hm.symm.trans hmine
  cases hc.symm.trans hcell
  rw [hstake] at hperformed
  refine ⟨_, ?_, hout⟩
  rw [Dot.afterRound?_master hc hm hmaster hpair, hperformed]
  rfl

/-- The one that is met dies, and those behind it wait on. -/
theorem other_at_end (hc : w.cell? d.pos = some x) (hmaster : m.master = false)
    (hpair : pair? d.pos c.dots = some (a, o)) :
    ∃ d', d.afterRound? w c.dots = some d' ∧ t.dots[k]? = some d' := by
  obtain ⟨i, j, e, -, hj, hmeets, -, hdie, -, honly⟩ := meets_of_pair? hsteady horder ht hpair
  by_cases heq : o = d
  · subst heq
    obtain rfl := horder.index_eq hd hj (Dot.waitsAt_iff.mpr ⟨m, hm, rfl, hmaster⟩)
    have hout := (hmeets.at_end hmeets.1 ht).2
    rw [hdie] at hout
    exact ⟨o.die, Dot.afterRound?_other hc hm hmaster hpair, hout⟩
  · have hnot : ¬ HasMet w c c.dots.length k := by
      intro h
      rcases h.by_role hsteady hd hm with ⟨hrole, -⟩ | ⟨-, i', e', hmeets', hpos⟩
      · rw [hmaster] at hrole
        cases hrole
      · obtain ⟨-, rfl⟩ := honly i' k e' hmeets' hpos
        exact heq (Option.some.inj (hj.symm.trans hd))
    exact ⟨d.waitOn m, Dot.afterRound?_behind hc hm hmaster hpair heq,
      waits_on_of_not_met hsteady ht hd hm hnot⟩

theorem waiting_at_end : ∃ d', d.afterRound? w c.dots = some d' ∧ t.dots[k]? = some d' := by
  have hlost := hsteady.waiting hd hm
  cases hc : w.cell? d.pos with
  | none => simp [Turn.isLost, hc] at hlost
  | some x =>
    cases hpair : pair? d.pos c.dots with
    | none =>
      have hnot := not_hasMet_of_unpaired (n := c.dots.length) hsteady hd hm hpair
      exact ⟨d.waitOn m, Dot.afterRound?_unpaired hc hm hpair,
        waits_on_of_not_met hsteady ht hd hm hnot⟩
    | some q =>
      cases hmaster : m.master with
      | true => exact master_at_end hsteady horder ht hd hm hc hmaster hpair
      | false => exact other_at_end hsteady horder ht hd hm hc hmaster hpair

end waiting

/-- A silent dot that waits for nobody ends as it does alone. -/
theorem moving_at_end (hsteady : Steady w c.dots) (ht : actAll w c.dots.length c = .ok () t)
    (hd : c.dots[k]? = some d) (hne : ∀ m, d.phase ≠ .meet m) (hsilent : d.isSilent w = true) :
    ∃ d', d.afterRound? w c.dots = some d' ∧ t.dots[k]? = some d' := by
  have hk := (List.getElem?_eq_some_iff.mp hd).1
  obtain ⟨s, s', hs, hturn⟩ := actAll_turn ht hk
  have hround := actAll_round hsteady (by omega) hs
  -- It is as it chose until its turn, and nobody touches it after that.
  obtain ⟨d₁, hd₁, hstanding⟩ := hround.dot k d hd
  have hsame := (hstanding.moving hne).2 (Nat.le_refl k)
  subst hsame
  have hs' : actAll w (k + 1) c = .ok () s' := actAll_succ_ok.mpr ⟨s, hs, hturn⟩
  have hkeep : ∀ d', s'.dots[k]? = some d' → (∀ m, d'.phase ≠ .meet m) →
      t.dots[k]? = some d' := by
    intro d' hd' hne'
    exact actAll_keeps hk hs' ht hd' hne' (.inl (by omega))
  cases hc : w.cell? d₁.pos with
  | none =>
    rw [Turn.act_outside hd₁ hc] at hturn
    cases hturn
    have hdead := List.getElem?_set_self (a := d₁.die) (List.getElem?_eq_some_iff.mp hd₁).1
    exact ⟨d₁.die, Dot.afterRound?_outside hc, hkeep _ hdead (by simp)⟩
  | some x =>
    obtain ⟨d', hresult⟩ := Turn.result_of_act hturn hd₁ hc hne hsilent
    obtain ⟨dots, hact, hdots⟩ := Turn.act_result hd₁ hc hresult
    rw [hact] at hturn
    cases hturn
    have hphase : ∀ m, d'.phase ≠ .meet m := by
      have hgoes := Dot.deed_goesOn hne hc
      rcases Deed.result?_eq_some hresult with hdeed | ⟨new, hdeed⟩
      · rw [hdeed] at hgoes
        exact hgoes.phase
      · rw [hdeed] at hgoes
        exact hgoes.phase
    refine ⟨d'.settled w, ?_, hkeep _ hdots (Dot.settled_ne_meet hphase)⟩
    rw [Dot.afterRound?_alone hc hne, hresult]
    rfl

/-- Where those that wait at its cell are orderly, it is settled what a dot is at the
    end.  Its deed must not need the console. -/
theorem dot_at_end (hsteady : Steady w c.dots) (horder : OrderlyAt d.pos c.dots)
    (hsilent : d.isSilent w = true) (ht : actAll w c.dots.length c = .ok () t)
    (hd : c.dots[k]? = some d) :
    ∃ d', d.afterRound? w c.dots = some d' ∧ t.dots[k]? = some d' := by
  by_cases hphase : ∃ m, d.phase = .meet m
  · obtain ⟨m, hm⟩ := hphase
    exact waiting_at_end hsteady horder ht hd hm
  · have hne : ∀ m, d.phase ≠ .meet m := fun m hm => hphase ⟨m, hm⟩
    exact moving_at_end hsteady ht hd hne hsilent

/-! ## Rounds that complete -/

/-- Whoever waits in the middle of a round brings to a meeting what it brought
    when all had chosen, and waits where it waited then. -/
theorem Round.waitsAt_chosen {o : Dot} {n : Meeting} (h : Round w c i s)
    (ho : s.dots[j]? = some o) (hn : o.phase = .meet n) :
    ∃ o₀, c.dots[j]? = some o₀ ∧ o₀.waitsAt o.pos n.master = true ∧ o₀.offer = o.offer := by
  obtain ⟨o₀, n₀, ho₀, hn₀, -, heq⟩ := h.of_waiting ho hn
  refine ⟨o₀, ho₀, ?_⟩
  by_cases hji : j < i
  · rw [if_pos hji] at heq
    subst heq
    rw [← Phase.meet.inj hn]
    exact ⟨Dot.waitsAt_iff.mpr ⟨n₀, hn₀, rfl, rfl⟩, (Dot.offer_waitOn hn₀).symm⟩
  · rw [if_neg hji] at heq
    subst heq
    exact ⟨Dot.waitsAt_iff.mpr ⟨n, hn, rfl, rfl⟩, rfl⟩

/-- In the middle of a round, the turn of a dot completes if it is known what becomes
    of the dot. -/
theorem Round.turn_completes (hsteady : Steady w c.dots) (horder : OrderlyAt d.pos c.dots)
    (h : Round w c i s) (hd : c.dots[i]? = some d)
    (hsettled : (d.afterRound? w c.dots).isSome = true) :
    ∃ dots, Turn.act w i s = .ok () { s with dots := dots } := by
  obtain ⟨d', hd', hstanding⟩ := h.dot i d hd
  cases hc : w.cell? d'.pos with
  | none => exact ⟨_, Turn.act_outside hd' hc⟩
  | some x =>
    have hresult : ∀ r, (d'.deed w x).result? = some r →
        ∃ dots, Turn.act w i s = .ok () { s with dots := dots } := by
      intro r hr
      obtain ⟨dots, hact, -⟩ := Turn.act_result hd' hc hr
      exact ⟨dots, hact⟩
    by_cases hphase : ∃ m, d.phase = .meet m
    · obtain ⟨m, hm⟩ := hphase
      by_cases hmet : HasMet w c i i
      · -- Somebody has met it before its turn, and the dead do nothing.
        have hdead := (hstanding.met m hm hmet).2 (Nat.le_refl i)
        exact hresult d' (by simp [Dot.deed, hdead, Deed.result?])
      · have hsame : d' = d := by simpa using hstanding.waiting m hm hmet
        subst hsame
        apply Turn.act_meet hd' hc hm
        intro j o hmaster hold ho
        obtain ⟨o', n, ho', hn, hpos, hrole⟩ := Meeting.exists_of_oldest? hold
        cases ho.symm.trans ho'
        have hwaits : d'.waitsAt d'.pos true = true :=
          Dot.waitsAt_iff.mpr ⟨m, hm, rfl, hmaster⟩
        -- Nobody has met here yet, so the other dot is the one that is to be met.
        have hfirst : ∀ l k e, l < i → Meets w c l k e → e.master.pos ≠ d'.pos := by
          intro l k e hl hmeets hat
          have := hmeets.eq_master hsteady horder hd hwaits hat
          omega
        obtain ⟨o₁, ho₁, heldest⟩ := h.isEldest hsteady horder hfirst hold
        obtain ⟨o₀, ho₀, -, hoffer⟩ := h.waitsAt_chosen ho hn
        cases ho₀.symm.trans ho₁
        have hpair : pair? d'.pos c.dots = some (d', o₁) := by
          have hmine := horder.isEldest_master (List.mem_of_getElem? hd) hwaits
          exact pair?_eq_some_iff.mpr
            ⟨(eldest?_eq_some_iff horder).mpr hmine, (eldest?_eq_some_iff horder).mpr heldest⟩
        rw [Dot.afterRound?_master hc hm hmaster hpair, hoffer] at hsettled
        cases hout : m.outcome x d' o.offer with
        | ok r => exact ⟨r, rfl⟩
        | error f =>
          rw [hout] at hsettled
          cases hsettled
    · have hne : ∀ m, d.phase ≠ .meet m := fun m hm => hphase ⟨m, hm⟩
      have hsame := (hstanding.moving hne).2 (Nat.le_refl i)
      subst hsame
      rw [Dot.afterRound?_alone hc hne, Option.isSome_map] at hsettled
      obtain ⟨r, hr⟩ := Option.isSome_iff_exists.mp hsettled
      exact hresult r hr

/-- A round of orderly dots completes if it is known what becomes of each of them,
    and the console is as before. -/
theorem actAll_completes (hsteady : Steady w c.dots) (horder : Orderly c.dots)
    (hsettled : ∀ d ∈ c.dots, (d.afterRound? w c.dots).isSome = true) (hi : i ≤ c.dots.length) :
    ∃ dots, actAll w i c = .ok () { c with dots := dots } := by
  induction i with
  | zero => exact ⟨c.dots, rfl⟩
  | succ i ih =>
    obtain ⟨dots, hs⟩ := ih (by omega)
    have hround := actAll_round hsteady (by omega) hs
    have hd := List.getElem?_eq_getElem (l := c.dots) (i := i) (by omega)
    have hhas := hsettled _ (List.mem_of_getElem? hd)
    obtain ⟨dots', hturn⟩ := hround.turn_completes hsteady (horder.orderlyAt _) hd hhas
    exact ⟨dots', actAll_succ_ok.mpr ⟨_, hs, hturn⟩⟩

end Machine

end DotPaths
