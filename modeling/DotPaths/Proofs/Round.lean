import DotPaths.Machine.Tick
import DotPaths.Proofs.Encounter

/-! # Rounds

    In a parallel tick all dots choose, and then each has its turn in a round.
    Choosing is a matter of each dot alone.  In the round the dots change while
    others still look at them, so this module says what every dot is after the
    first `i` turns:

    - a dot that waits for nobody is as it chose until its turn, and does not
      begin to wait in it;
    - a waiting dot that has met somebody waits no longer, and it is gone if its
      turn is still to come;
    - a waiting dot that has met nobody is as it chose, with one more turn of
      waiting if its turn is over;
    - behind them stand the dots that set out at crossings, in the order of the
      turns.
-/

namespace DotPaths.Machine

open Scene Meeting

/-! ## Choosing -/

theorem chooseAll_succ_ok {w : World} {n : Nat} {s s' : Scene} :
    chooseAll w (n + 1) s = .ok () s' ↔
      ∃ t, chooseAll w n s = .ok () t ∧ Turn.choose w n t = .ok () s' := by
  unfold chooseAll
  rw [forM_range_succ, bind_ok_iff]
  constructor
  · rintro ⟨_, t, h⟩; exact ⟨t, h⟩
  · rintro ⟨t, h⟩; exact ⟨(), t, h⟩

/-- After the first `n` dots have chosen, the others are as before. -/
theorem chooseAll_upTo {w : World} {n : Nat} {s s' : Scene} (h : chooseAll w n s = .ok () s') :
    s'.dots.length = s.dots.length ∧
      (∀ k d d', k < n → s.dots[k]? = some d → s'.dots[k]? = some d' → d.chosen w = .ok d') ∧
      ∀ k, n ≤ k → s'.dots[k]? = s.dots[k]? := by
  induction n generalizing s' with
  | zero =>
    cases h
    exact ⟨rfl, by omega, fun _ _ => rfl⟩
  | succ n ih =>
    obtain ⟨t, ht, h⟩ := chooseAll_succ_ok.mp h
    obtain ⟨hlen, hchosen, hrest⟩ := ih ht
    -- Dot `n` has not been touched before its own turn to choose.
    obtain ⟨d₀, d₁, hd₀, hd₁, rfl⟩ := Turn.choose_ok_iff.mp h
    have hn := (List.getElem?_eq_some_iff.mp hd₀).1
    refine ⟨by simpa using hlen, ?_, ?_⟩
    · intro k d d' hk hd hd'
      by_cases hkn : k = n
      · subst hkn
        rw [hrest k (Nat.le_refl k), hd] at hd₀
        cases hd₀
        simp only [List.getElem?_set_self hn] at hd'
        cases hd'
        exact hd₁
      · simp only [List.getElem?_set_ne (Ne.symm hkn)] at hd'
        exact hchosen k d d' (by omega) hd hd'
    · intro k hk
      rw [← hrest k (by omega)]
      exact List.getElem?_set_ne (by omega)

/-- When all dots have chosen, each is as it chose alone. -/
theorem chooseAll_ok {w : World} {s s' : Scene} (h : chooseAll w s.dots.length s = .ok () s') :
    s'.dots.length = s.dots.length ∧
      ∀ (k : Nat) (d d' : Dot), s.dots[k]? = some d → s'.dots[k]? = some d' →
        d.chosen w = .ok d' := by
  obtain ⟨hlen, hchosen, -⟩ := chooseAll_upTo h
  refine ⟨hlen, ?_⟩
  intro k d d' hd hd'
  exact hchosen k d d' (List.getElem?_eq_some_iff.mp hd).1 hd hd'

/-- After the choosing, a dot has the same number and is as it chose alone. -/
theorem exists_chosen {w : World} {s c : Scene} {k : Nat} {d : Dot}
    (h : chooseAll w s.dots.length s = .ok () c) (hd : s.dots[k]? = some d) :
    ∃ e, c.dots[k]? = some e ∧ d.chosen w = .ok e := by
  obtain ⟨hlen, hall⟩ := chooseAll_ok h
  have hk : k < c.dots.length := hlen ▸ (List.getElem?_eq_some_iff.mp hd).1
  have he := List.getElem?_eq_getElem hk
  exact ⟨_, he, hall k d _ hd he⟩

/-- No dot is lost where it stands, unless it is dead. -/
def Steady (w : World) (dots : List Dot) : Prop :=
  ∀ d ∈ dots, d.isDead = false → Turn.isLost w d = false

theorem Steady.waiting {w : World} {dots : List Dot} {k : Nat} {d : Dot} {m : Meeting}
    (h : Steady w dots) (hd : dots[k]? = some d) (hphase : d.phase = .meet m) :
    Turn.isLost w d = false := by
  apply h d (List.mem_of_getElem? hd)
  simp [Dot.isDead, Phase.isDead, hphase]

theorem steady_chooseAll {w : World} {s s' : Scene}
    (h : chooseAll w s.dots.length s = .ok () s') : Steady w s'.dots := by
  obtain ⟨hlen, hchosen⟩ := chooseAll_ok h
  intro d' hd' hlive
  obtain ⟨k, hk, rfl⟩ := List.getElem_of_mem hd'
  have hks : k < s.dots.length := by omega
  have h' := hchosen k s.dots[k] _ (List.getElem?_eq_getElem hks) (List.getElem?_eq_getElem hk)
  exact Dot.isLost_chosen h' hlive

/-! ## The turns of a round -/

theorem actAll_succ_ok {w : World} {n : Nat} {c s' : Scene} :
    actAll w (n + 1) c = .ok () s' ↔
      ∃ s, actAll w n c = .ok () s ∧ Turn.act w n s = .ok () s' := by
  unfold actAll
  rw [forM_range_succ, bind_ok_iff]
  constructor
  · rintro ⟨_, t, h⟩; exact ⟨t, h⟩
  · rintro ⟨t, h⟩; exact ⟨(), t, h⟩

/-- A round that completes has gone through each of its turns. -/
theorem actAll_turn {w : World} {n i : Nat} {c s : Scene} (h : actAll w n c = .ok () s)
    (hi : i < n) :
    ∃ t t', actAll w i c = .ok () t ∧ Turn.act w i t = .ok () t' := by
  induction n generalizing s with
  | zero => omega
  | succ n ih =>
    obtain ⟨t, ht, hturn⟩ := actAll_succ_ok.mp h
    by_cases hin : i = n
    · subst hin
      exact ⟨t, s, ht, hturn⟩
    · exact ih ht (by omega)

/-- In the round from the scene `c`, the dot with number `i` meets the one with
    number `j` in its turn. -/
def Meets (w : World) (c : Scene) (i j : Nat) (e : Encounter) : Prop :=
  i < c.dots.length ∧
    ∃ s s', actAll w i c = .ok () s ∧ Turn.act w i s = .ok () s' ∧ e.Happens w s.dots i j s'.dots

/-- The dot with number `k` has met somebody in the first `i` turns. -/
def HasMet (w : World) (c : Scene) (i k : Nat) : Prop :=
  ∃ i' j e, i' < i ∧ Meets w c i' j e ∧ (k = i' ∨ k = j)

theorem meets_iff {w : World} {c s s' : Scene} {i j : Nat} {e : Encounter}
    (hi : i < c.dots.length) (hs : actAll w i c = .ok () s) (hs' : Turn.act w i s = .ok () s') :
    Meets w c i j e ↔ e.Happens w s.dots i j s'.dots := by
  constructor
  · rintro ⟨-, t, t', ht, ht', he⟩
    cases hs.symm.trans ht
    cases hs'.symm.trans ht'
    exact he
  · intro he
    exact ⟨hi, s, s', hs, hs', he⟩

theorem HasMet.mono {w : World} {c : Scene} {i i' k : Nat} (h : HasMet w c i k) (hi : i ≤ i') :
    HasMet w c i' k := by
  obtain ⟨l, j, e, hl, hmeets, hk⟩ := h
  exact ⟨l, j, e, by omega, hmeets, hk⟩

/-- A turn without an encounter makes nobody meet. -/
theorem hasMet_succ_of_none {w : World} {c s s' : Scene} {i k : Nat} (hi : i < c.dots.length)
    (hs : actAll w i c = .ok () s) (hs' : Turn.act w i s = .ok () s')
    (hnone : ∀ j (e : Encounter), ¬ e.Happens w s.dots i j s'.dots)
    (h : HasMet w c (i + 1) k) : HasMet w c i k := by
  obtain ⟨l, j, e, hl, hmeets, hk⟩ := h
  by_cases hli : l = i
  · subst hli
    exact absurd ((meets_iff hi hs hs').mp hmeets) (hnone j e)
  · exact ⟨l, j, e, by omega, hmeets, hk⟩

/-- In a turn with an encounter, only its two dots meet. -/
theorem hasMet_succ_of_happens {w : World} {c s s' : Scene} {i j k : Nat} {e : Encounter}
    (hi : i < c.dots.length) (hs : actAll w i c = .ok () s) (hs' : Turn.act w i s = .ok () s')
    (he : e.Happens w s.dots i j s'.dots) (h : HasMet w c (i + 1) k) :
    HasMet w c i k ∨ k = i ∨ k = j := by
  obtain ⟨l, j', e', hl, hmeets, hk⟩ := h
  by_cases hli : l = i
  · subst hli
    have he' := (meets_iff hi hs hs').mp hmeets
    rw [(he.unique he').1]
    exact .inr hk
  · exact .inl ⟨l, j', e', by omega, hmeets, hk⟩

/-! ## The dots in the middle of a round -/

/-- What the dot with number `k` that chose to be `d` is after the first `i`
    turns. -/
structure Standing (w : World) (c : Scene) (i k : Nat) (d d' : Dot) : Prop where
  /-- It waits for nobody. -/
  moving : (∀ m, d.phase ≠ .meet m) → (∀ m, d'.phase ≠ .meet m) ∧ (i ≤ k → d' = d)
  /-- It waited and has met somebody. -/
  met : ∀ m, d.phase = .meet m → HasMet w c i k →
    (∀ m, d'.phase ≠ .meet m) ∧ (i ≤ k → d'.phase = .dead)
  /-- It waits and has met nobody. -/
  waiting : ∀ m, d.phase = .meet m → ¬ HasMet w c i k → d' = if k < i then d.waitOn m else d

namespace Standing

variable {w : World} {c : Scene} {i k : Nat} {d d' : Dot}

theorem start : Standing w c 0 k d d := by
  refine ⟨fun hne => ⟨hne, fun _ => rfl⟩, ?_, by simp⟩
  rintro m - ⟨_, _, _, hlt, -⟩
  omega

/-- A turn in which the dot has no part leaves it as it is. -/
theorem later (h : Standing w c i k d d') (hk : k ≠ i)
    (hmet : HasMet w c (i + 1) k → HasMet w c i k) : Standing w c (i + 1) k d d' := by
  refine ⟨?_, ?_, ?_⟩
  · intro hne
    obtain ⟨hne', heq⟩ := h.moving hne
    exact ⟨hne', fun hle => heq (by omega)⟩
  · intro m hm hk'
    obtain ⟨hne', hdead⟩ := h.met m hm (hmet hk')
    exact ⟨hne', fun hle => hdead (by omega)⟩
  · intro m hm hnot
    rw [h.waiting m hm (fun hk' => hnot (hk'.mono (by omega)))]
    simp only [show k < i + 1 ↔ k < i from by omega]

/-- After its own turn a dot may be anything that does not wait, if it waited
    for nobody or has met somebody. -/
theorem after_turn (hne : ∀ m, d'.phase ≠ .meet m)
    (hmet : ∀ m, d.phase = .meet m → HasMet w c (i + 1) i) : Standing w c (i + 1) i d d' := by
  refine ⟨fun _ => ⟨hne, by omega⟩, fun _ _ _ => ⟨hne, by omega⟩, ?_⟩
  intro m hm hnot
  exact absurd (hmet m hm) hnot

/-- After its own turn, a dot that has met nobody has waited one turn more. -/
theorem after_waiting {m : Meeting} (hphase : d.phase = .meet m)
    (hnot : ¬ HasMet w c (i + 1) i) : Standing w c (i + 1) i d (d.waitOn m) := by
  refine ⟨fun hne => absurd hphase (hne m), fun _ _ hmet => absurd hmet hnot, ?_⟩
  intro m' hm' _
  cases hphase.symm.trans hm'
  simp

/-- A dot that somebody has met in his turn is gone. -/
theorem after_met {m : Meeting} (hphase : d.phase = .meet m) (hdead : d'.phase = .dead)
    (hmet : HasMet w c i k) : Standing w c i k d d' := by
  refine ⟨fun hne => absurd hphase (hne m), ?_, fun _ _ hnot => absurd hmet hnot⟩
  intro _ _ _
  exact ⟨by simp [hdead], fun _ => hdead⟩

end Standing

/-- The scene `s` after the first `i` turns of the round from the scene `c`. -/
structure Round (w : World) (c : Scene) (i : Nat) (s : Scene) : Prop where
  dot : ∀ k d, c.dots[k]? = some d → ∃ d', s.dots[k]? = some d' ∧ Standing w c i k d d'
  /-- Behind the dots stand those that have set out. -/
  new : s.dots.drop c.dots.length = (c.dots.take i).flatMap (Dot.copies w)

namespace Round

variable {w : World} {c s s' : Scene} {i : Nat}

theorem start : Round w c 0 c := by
  refine ⟨?_, by simp⟩
  intro k d hd
  exact ⟨d, hd, Standing.start⟩

theorem length (h : Round w c i s) : c.dots.length ≤ s.dots.length := by
  by_cases hle : c.dots.length ≤ s.dots.length
  · exact hle
  · have hk : s.dots.length < c.dots.length := by omega
    obtain ⟨d', hd', -⟩ := h.dot s.dots.length _ (List.getElem?_eq_getElem hk)
    have := (List.getElem?_eq_some_iff.mp hd').1
    omega

/-- Dots that have set out do not wait. -/
theorem new_phase (h : Round w c i s) {k : Nat} {d : Dot} (hk : c.dots.length ≤ k)
    (hd : s.dots[k]? = some d) : d.phase = .travel := by
  have hmem : d ∈ s.dots.drop c.dots.length := by
    apply List.mem_of_getElem? (i := k - c.dots.length)
    rw [List.getElem?_drop]
    rw [show c.dots.length + (k - c.dots.length) = k from by omega]
    exact hd
  rw [h.new] at hmem
  obtain ⟨d₀, -, hd₀⟩ := List.mem_flatMap.mp hmem
  unfold Dot.copies at hd₀
  split at hd₀
  · unfold Dot.branches at hd₀
    obtain ⟨dir, -, rfl⟩ := List.mem_map.mp hd₀
    rfl
  · cases hd₀

/-- Whoever waits in the middle of a round has waited from its beginning. -/
theorem of_waiting (h : Round w c i s) {k : Nat} {d' : Dot} {m' : Meeting}
    (hd' : s.dots[k]? = some d') (hphase' : d'.phase = .meet m') :
    ∃ d m, c.dots[k]? = some d ∧ d.phase = .meet m ∧ ¬ HasMet w c i k ∧
      d' = if k < i then d.waitOn m else d := by
  by_cases hk : k < c.dots.length
  · obtain ⟨d₁, hd₁, hst⟩ := h.dot k _ (List.getElem?_eq_getElem hk)
    cases hd'.symm.trans hd₁
    by_cases hphase : ∃ m, c.dots[k].phase = .meet m
    · obtain ⟨m, hm⟩ := hphase
      have hnot : ¬ HasMet w c i k := fun hmet => (hst.met m hm hmet).1 m' hphase'
      exact ⟨_, m, List.getElem?_eq_getElem hk, hm, hnot, hst.waiting m hm hnot⟩
    · have hne := (hst.moving (fun m hm => hphase ⟨m, hm⟩)).1
      exact absurd hphase' (hne m')
  · have htravel := h.new_phase (by omega) hd'
    rw [htravel] at hphase'
    cases hphase'

/-- A turn of the round, by what it does to the list and to each dot. -/
theorem step {d₀ : Dot} (h : Round w c i s) (hd₀ : c.dots[i]? = some d₀)
    (hnew : s'.dots.drop c.dots.length = s.dots.drop c.dots.length ++ d₀.copies w)
    (hdot : ∀ k d d', c.dots[k]? = some d → s.dots[k]? = some d' → Standing w c i k d d' →
      ∃ d'', s'.dots[k]? = some d'' ∧ Standing w c (i + 1) k d d'') : Round w c (i + 1) s' := by
  refine ⟨?_, ?_⟩
  · intro k d hd
    obtain ⟨d', hd', hst⟩ := h.dot k d hd
    exact hdot k d d' hd hd' hst
  · rw [hnew, h.new, List.take_add_one, hd₀, List.flatMap_append]
    simp

/-- The turn of a dot that waits for nobody, or waits no longer. -/
theorem step_alone {d d₀ : Dot} (h : Round w c i s) (hs : actAll w i c = .ok () s)
    (hs' : Turn.act w i s = .ok () s') (hd₀ : c.dots[i]? = some d₀) (hd : s.dots[i]? = some d)
    (hphase : ∀ m, d.phase ≠ .meet m) (hcopies : d.copies w = d₀.copies w)
    (hmet : ∀ m, d₀.phase = .meet m → HasMet w c i i) : Round w c (i + 1) s' := by
  obtain ⟨hnone, d₁, hphase₁, hdots⟩ := Turn.act_alone hs' hd hphase
  have hi := (List.getElem?_eq_some_iff.mp hd₀).1
  have hlen := h.length
  refine h.step hd₀ ?_ ?_
  · rw [hdots, List.drop_set_of_lt hi, List.drop_append_of_le_length hlen, hcopies]
  · intro k d₂ d₃ hd₂ hd₃ hst
    by_cases hki : k = i
    · subst hki
      cases hd₀.symm.trans hd₂
      refine ⟨d₁, ?_, Standing.after_turn hphase₁ ?_⟩
      · rw [hdots, List.getElem?_set_self (by rw [List.length_append]; omega)]
      · intro m hm
        exact (hmet m hm).mono (by omega)
    · refine ⟨d₃, ?_, hst.later hki (hasMet_succ_of_none hi hs hs' hnone)⟩
      have hk := (List.getElem?_eq_some_iff.mp hd₃).1
      rw [hdots, List.getElem?_set_ne (Ne.symm hki), List.getElem?_append_left hk, hd₃]

/-- The turn of a dot that waits on. -/
theorem step_wait {d : Dot} {m : Meeting} (h : Round w c i s) (hs : actAll w i c = .ok () s)
    (hs' : Turn.act w i s = .ok () s') (hd : c.dots[i]? = some d) (hphase : d.phase = .meet m)
    (hnot : ¬ HasMet w c i i) (hnone : ∀ j (e : Encounter), ¬ e.Happens w s.dots i j s'.dots)
    (hdots : s'.dots = s.dots.set i (d.waitOn m)) : Round w c (i + 1) s' := by
  have hi := (List.getElem?_eq_some_iff.mp hd).1
  have hlen := h.length
  have hmet : ∀ k, HasMet w c (i + 1) k → HasMet w c i k := fun k =>
    hasMet_succ_of_none hi hs hs' hnone
  refine h.step hd ?_ ?_
  · rw [hdots, List.drop_set_of_lt hi, Dot.copies_of_phase_ne (by simp [hphase])]
    simp
  · intro k d₂ d₃ hd₂ hd₃ hst
    by_cases hki : k = i
    · subst hki
      cases hd.symm.trans hd₂
      refine ⟨d.waitOn m, ?_, Standing.after_waiting hphase (fun hk => hnot (hmet k hk))⟩
      rw [hdots, List.getElem?_set_self (by omega)]
    · refine ⟨d₃, ?_, hst.later hki (hmet k)⟩
      rw [hdots, List.getElem?_set_ne (Ne.symm hki), hd₃]

/-- The turn of a master that meets another dot. -/
theorem step_meet {j : Nat} {e : Encounter} (h : Round w c i s) (hi : i < c.dots.length)
    (hs : actAll w i c = .ok () s) (hs' : Turn.act w i s = .ok () s')
    (he : e.Happens w s.dots i j s'.dots) : Round w c (i + 1) s' := by
  have hmeets : Meets w c i j e := (meets_iff hi hs hs').mpr he
  obtain ⟨d₀, m₀, hd₀, hm₀, -, -⟩ := h.of_waiting he.master_here he.master_waits
  obtain ⟨o₀, n₀, ho₀, hn₀, -, -⟩ := h.of_waiting he.other_here he.other_waits
  have hj := (List.getElem?_eq_some_iff.mp ho₀).1
  refine h.step hd₀ ?_ ?_
  · rw [he.after, List.drop_set_of_lt hi, List.drop_set_of_lt hj,
      Dot.copies_of_phase_ne (by simp [hm₀])]
    simp
  · intro k d₂ d₃ hd₂ hd₃ hst
    by_cases hki : k = i
    · subst hki
      refine ⟨_, he.master_after, Standing.after_turn ?_ ?_⟩
      · exact Dot.settled_ne_meet fun m => Phase.noConfusion
      · intro m _
        exact ⟨k, j, e, by omega, hmeets, .inl rfl⟩
    · by_cases hkj : k = j
      · subst hkj
        cases ho₀.symm.trans hd₂
        refine ⟨_, he.other_after, Standing.after_met hn₀ rfl ?_⟩
        exact ⟨i, k, e, by omega, hmeets, .inr rfl⟩
      · -- Neither of the two: it is untouched, and it has met nobody just now.
        refine ⟨d₃, by rw [he.rest_after hki hkj, hd₃], hst.later hki ?_⟩
        intro hmet
        rcases hasMet_succ_of_happens hi hs hs' he hmet with hmet | hk | hk
        · exact hmet
        · exact absurd hk hki
        · exact absurd hk hkj

end Round

/-- What every dot is in the middle of a round. -/
theorem actAll_round {w : World} {c s : Scene} {i : Nat} (hsteady : Steady w c.dots)
    (hi : i ≤ c.dots.length) (h : actAll w i c = .ok () s) : Round w c i s := by
  induction i generalizing s with
  | zero =>
    cases h
    exact Round.start
  | succ i ih =>
    obtain ⟨t, ht, hturn⟩ := actAll_succ_ok.mp h
    have hround := ih (by omega) ht
    have hd₀ := List.getElem?_eq_getElem (l := c.dots) (i := i) (by omega)
    obtain ⟨d, hd, hst⟩ := hround.dot i _ hd₀
    -- The three kinds of turns: of one that waits and has been met, of one that
    -- waits and has not, and of one that waits for nobody.
    by_cases hphase : ∃ m, c.dots[i].phase = .meet m
    · obtain ⟨m, hm⟩ := hphase
      by_cases hmet : HasMet w c i i
      · -- Somebody has met it before its turn, so it is gone.
        obtain ⟨hne, hdead⟩ := hst.met m hm hmet
        have hdead := hdead (Nat.le_refl i)
        apply hround.step_alone ht hturn hd₀ hd hne
        · rw [Dot.copies_of_phase_ne (by simp [hdead]), Dot.copies_of_phase_ne (by simp [hm])]
        · exact fun _ _ => hmet
      · have heq : d = c.dots[i] := by simpa using hst.waiting m hm hmet
        subst heq
        rcases Turn.act_waiting hturn hd hm (hsteady.waiting hd₀ hm) with
          ⟨hnone, hdots, -⟩ | ⟨j, e, he, -, -⟩
        · exact hround.step_wait ht hturn hd₀ hm hmet hnone hdots
        · exact hround.step_meet (by omega) ht hturn he
    · have hne : ∀ m, c.dots[i].phase ≠ .meet m := fun m hm => hphase ⟨m, hm⟩
      have heq := (hst.moving hne).2 (Nat.le_refl i)
      subst heq
      exact hround.step_alone ht hturn hd₀ hd hne rfl (fun m hm => absurd hm (hne m))

/-! ## Waiting in the middle of a round -/

section waiting
variable {w : World} {c s : Scene} {i j k : Nat} {e : Encounter}

/-- In the middle of a round, those wait who waited at its beginning and have
    met nobody, and they have waited one turn more if their turn is over. -/
theorem Round.waited?_iff {p : Pos} {role : Bool} {a : Nat} (h : Round w c i s) :
    waited? p role s.dots k = some a ↔
      ¬ HasMet w c i k ∧
        ∃ b, waited? p role c.dots k = some b ∧ a = b + if k < i then 1 else 0 := by
  constructor
  · intro hw
    obtain ⟨d', m', hd', hm', hpos, hrole, rfl⟩ := waited?_eq_some_iff.mp hw
    obtain ⟨d, m, hd, hm, hnot, heq⟩ := h.of_waiting hd' hm'
    by_cases hk : k < i
    · rw [if_pos hk] at heq ⊢
      subst heq
      cases hm'
      exact ⟨hnot, m.age, waited?_eq_some_iff.mpr ⟨d, m, hd, hm, hpos, hrole, rfl⟩, rfl⟩
    · rw [if_neg hk] at heq ⊢
      subst heq
      cases hm.symm.trans hm'
      exact ⟨hnot, m'.age, waited?_eq_some_iff.mpr ⟨_, m', hd, hm, hpos, hrole, rfl⟩, rfl⟩
  · rintro ⟨hnot, b, hb, rfl⟩
    obtain ⟨d, m, hd, hm, hpos, hrole, rfl⟩ := waited?_eq_some_iff.mp hb
    obtain ⟨d', hd', hst⟩ := h.dot k d hd
    cases hst.waiting m hm hnot
    apply waited?_eq_some_iff.mpr
    by_cases hk : k < i
    · rw [if_pos hk] at hd'
      exact ⟨_, _, hd', rfl, hpos, hrole, by simp [hk]⟩
    · rw [if_neg hk] at hd'
      exact ⟨_, m, hd', hm, hpos, hrole, by simp [hk]⟩

/-- A master that meets is as it chose. -/
theorem Meets.master_chosen (hsteady : Steady w c.dots) (h : Meets w c i j e) :
    c.dots[i]? = some e.master := by
  obtain ⟨hi, t, t', ht, -, he⟩ := h
  have hround := actAll_round hsteady (by omega) ht
  obtain ⟨d, m, hd, -, -, heq⟩ := hround.of_waiting he.master_here he.master_waits
  -- Its own turn is not over, so it has not counted this round.
  rw [if_neg (by omega)] at heq
  rw [heq]
  exact hd

/-- The dot that a master meets is as it chose, but for a turn of waiting. -/
theorem Meets.other_chosen (hsteady : Steady w c.dots) (h : Meets w c i j e) :
    ∃ o n, c.dots[j]? = some o ∧ o.phase = .meet n ∧ e.other = if j < i then o.waitOn n else o := by
  obtain ⟨hi, t, t', ht, -, he⟩ := h
  have hround := actAll_round hsteady (by omega) ht
  obtain ⟨o, n, ho, hn, -, heq⟩ := hround.of_waiting he.other_here he.other_waits
  exact ⟨o, n, ho, hn, heq⟩

/-- Those who meet are the oldest of their roles when it is the turn of the
    master. -/
theorem Meets.oldest (hsteady : Steady w c.dots) (h : Meets w c i j e)
    (hs : actAll w i c = .ok () s) :
    oldest? e.master.pos true s.dots = some i ∧ oldest? e.master.pos false s.dots = some j := by
  have hchosen := h.master_chosen hsteady
  obtain ⟨-, t, t', ht, hturn, he⟩ := h
  cases hs.symm.trans ht
  exact Turn.happens_oldest hturn (hsteady.waiting hchosen he.master_waits) he

/-- The oldest master, when it is its turn, meets the oldest other dot. -/
theorem meets_of_oldest {s' : Scene} {p : Pos} (hsteady : Steady w c.dots)
    (hi : i < c.dots.length) (hs : actAll w i c = .ok () s) (hs' : Turn.act w i s = .ok () s')
    (hmaster : oldest? p true s.dots = some i) (hother : oldest? p false s.dots = some j) :
    ∃ e, Meets w c i j e ∧ e.master.pos = p := by
  obtain ⟨d, m, hd, hm, rfl, hrole⟩ := exists_of_oldest? hmaster
  have hround := actAll_round hsteady (by omega) hs
  obtain ⟨d₀, m₀, hd₀, hm₀, -, heq⟩ := hround.of_waiting hd hm
  rw [if_neg (by omega)] at heq
  subst heq
  rcases Turn.act_waiting hs' hd hm (hsteady.waiting hd₀ hm) with
    ⟨-, -, hnone⟩ | ⟨j', e, he, -, hother'⟩
  · -- It would wait on only if there were nobody to meet.
    rw [hnone hrole hmaster] at hother
    cases hother
  · cases hother.symm.trans hother'
    refine ⟨e, (meets_iff hi hs hs').mpr he, ?_⟩
    cases hd.symm.trans he.master_here
    rfl

end waiting

end DotPaths.Machine
