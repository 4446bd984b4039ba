import Mathlib.Data.List.Perm.Basic
import DotPaths.Proofs.Alike
import DotPaths.Proofs.RoundEnd

/-! # The order of the turns

    In a parallel tick the dots have their turns in the order of a list, and
    each turn changes the list that the next one works on.  If nobody prints or
    reads, nobody stops the run, and no cell has two masters or two others after
    the choosing, this order does not matter: from two lists with the same dots
    the tick ends in the same way, with the same dots.

    The reason is that both halves of the tick treat each dot by itself: it
    chooses alone, and what the round makes of it depends only on who is there.
-/

namespace DotPaths

/-! ## What is shown -/

/-- The view has a place for each dot and does not tell their order. -/
theorem View.frame_congr {columns viewLines : Int} {w : World} {dots dots' : List Pos}
    (h : dots.Perm dots') : frame columns viewLines w dots = frame columns viewLines w dots' := by
  have hpatch : ∀ p c, patch dots p c = patch dots' p c := by
    intro p c
    have hmem : dots.contains p = dots'.contains p := by
      rw [Bool.eq_iff_iff, List.contains_iff_mem, List.contains_iff_mem]
      exact h.mem_iff
    unfold patch
    rw [hmem]
  unfold frame shownRow
  simp only [hpatch]

theorem Console.tick_congr {w : World} {dots dots' : List Pos} (h : dots.Perm dots') :
    Console.tick w dots = Console.tick w dots' := by
  have hdraw : ∀ d, Console.draw d w dots = Console.draw d w dots' := by
    intro d
    unfold Console.draw
    rw [View.frame_congr h]
  unfold Console.tick
  simp only [hdraw]

/-- The end of a tick is the same for the same dots in another order. -/
theorem Scene.tick_perm {w : World} {s r : Scene} (hdots : s.dots.Perm r.dots)
    (hconsole : r.console = s.console) :
    EndAlike (fun s r => s.dots.Perm r.dots) (Scene.tick w s) (Scene.tick w r) := by
  have hpositions : (positions s.dots).Perm (positions r.dots) :=
    (hdots.filter fun d : Dot => !d.isDead).map Dot.pos
  obtain ⟨s', hsdots, hsconsole, hs⟩ := tick_eq w s
  obtain ⟨r', hrdots, hrconsole, hr⟩ := tick_eq w r
  have hdots' : s'.dots.Perm r'.dots := by
    rw [hsdots, hrdots]
    exact hdots
  have hsame : r'.console = s'.console := by
    rw [hsconsole, hrconsole]
    exact hconsole
  rw [hs, hr, ← Console.tick_congr hpositions]
  unfold onConsole
  rw [hsame]
  cases Console.tick w (positions s.dots) s'.console with
  | ok x c => exact ⟨rfl, hdots'⟩
  | error e c => exact ⟨rfl, hdots'⟩

namespace Machine

variable {w : World} {s r c t : Scene} {d : Dot} {dots dots' : List Dot}

/-! ## Choosing -/

/-- Choosing goes on with the dots that have not chosen yet. -/
theorem chooseAll_prefix {n : Nat}
    (h : List.Forall₂ (fun d d' : Dot => d.chosen w = .ok d') s.dots dots)
    (hn : n ≤ s.dots.length) :
    chooseAll w n s = .ok () { s with dots := dots.take n ++ s.dots.drop n } := by
  have hlen := h.length_eq
  induction n with
  | zero => rfl
  | succ n ih =>
    apply chooseAll_succ_ok.mpr
    refine ⟨_, ih (by omega), ?_⟩
    apply Turn.choose_ok_iff.mpr
    have hs : n < s.dots.length := by omega
    have hd : n < dots.length := by omega
    have htake : (dots.take n).length = n := by
      rw [List.length_take]
      omega
    refine ⟨s.dots[n], dots[n], ?_, List.forall₂_iff_get.mp h |>.2 n hs hd, ?_⟩
    · show (dots.take n ++ s.dots.drop n)[n]? = _
      rw [List.getElem?_append_right (by omega), htake, List.getElem?_drop]
      simp
    · have hlist : dots.take (n + 1) ++ s.dots.drop (n + 1) =
          (dots.take n ++ s.dots.drop n).set n dots[n] := by
        rw [List.set_append_right _ _ (by omega), htake, List.drop_eq_getElem_cons hs,
          List.take_add_one, List.getElem?_eq_getElem hd, Nat.sub_self, List.set_cons_zero,
          Option.toList_some, List.append_assoc, List.singleton_append]
      rw [hlist]

/-- All dots choose if each can choose alone, and then each is as it chose. -/
theorem chooseAll_ok_iff :
    chooseAll w s.dots.length s = .ok () c ↔
      List.Forall₂ (fun d d' : Dot => d.chosen w = .ok d') s.dots c.dots ∧
        c = { s with dots := c.dots } := by
  have hcompletes : ∀ dots, List.Forall₂ (fun d d' : Dot => d.chosen w = .ok d') s.dots dots →
      chooseAll w s.dots.length s = .ok () { s with dots := dots } := by
    intro dots hall
    have h := chooseAll_prefix hall (Nat.le_refl _)
    rw [hall.length_eq, List.take_length, ← hall.length_eq, List.drop_length,
      List.append_nil] at h
    exact h
  constructor
  · intro h
    obtain ⟨hlen, hchosen⟩ := chooseAll_ok h
    have hall : List.Forall₂ (fun d d' : Dot => d.chosen w = .ok d') s.dots c.dots := by
      apply List.forall₂_iff_get.mpr
      refine ⟨hlen.symm, ?_⟩
      intro i hi hi'
      exact hchosen i _ _ (List.getElem?_eq_getElem hi) (List.getElem?_eq_getElem hi')
    have h' := hcompletes c.dots hall
    rw [h] at h'
    exact ⟨hall, by simpa using h'⟩
  · intro ⟨hall, hc⟩
    rw [hc]
    exact hcompletes c.dots hall

/-! ## The tick as a whole -/

/-- A tick whose dots have chosen and acted ends as its closing does. -/
theorem parallelTick_eq (hchoose : chooseAll w s.dots.length s = .ok () c)
    (hact : actAll w s.dots.length c = .ok () t) :
    parallelTick w s = Scene.tick w { t with dots := sweep s.dots.length t.dots } := by
  show (chooseAll w s.dots.length >>= fun _ => actAll w s.dots.length >>= _) s = _
  rw [bind_of_ok hchoose, bind_of_ok hact]
  rfl

/-- The dots after a tick of orderly dots: those that are left, each as the round has
    made it, and the ones that have set out. -/
theorem swept_eq (hsteady : Steady w c.dots) (horder : Orderly c.dots)
    (hsilent : ∀ d ∈ c.dots, d.isSilent w = true) (hact : actAll w c.dots.length c = .ok () t) :
    sweep c.dots.length t.dots =
      (c.dots.filterMap (Dot.afterRound? w c.dots)).filter (fun d => !d.isDead) ++
        c.dots.flatMap (Dot.copies w) := by
  have hround := actAll_round hsteady (Nat.le_refl _) hact
  have hnew := hround.new
  rw [List.take_length] at hnew
  have hold : (t.dots.take c.dots.length).map some = c.dots.map (Dot.afterRound? w c.dots) := by
    apply List.ext_getElem?
    intro k
    by_cases hk : k < c.dots.length
    · have hd := List.getElem?_eq_getElem hk
      obtain ⟨d', hsettled, hend⟩ := dot_at_end hsteady (horder.orderlyAt _)
        (hsilent _ (List.getElem_mem hk)) hact hd
      rw [List.getElem?_map, List.getElem?_map, List.getElem?_take_of_lt hk, hend, hd]
      simp [hsettled]
    · have hlen := hround.length
      rw [List.getElem?_eq_none (by simp; omega), List.getElem?_eq_none (by simp; omega)]
  have hmap : t.dots.take c.dots.length = c.dots.filterMap (Dot.afterRound? w c.dots) := by
    have hid := congrArg (List.filterMap id) hold
    simpa [List.filterMap_map] using hid
  unfold sweep
  rw [hnew, hmap]

/-- In a round that completes it is settled what becomes of every dot, and nothing has
    happened at the console. -/
theorem settled_of_completes (hsteady : Steady w c.dots) (horder : Orderly c.dots)
    (hsilent : ∀ d ∈ c.dots, d.isSilent w = true) (hact : actAll w c.dots.length c = .ok () t) :
    (∀ d ∈ c.dots, (d.afterRound? w c.dots).isSome = true) ∧ t.console = c.console := by
  have hsettled : ∀ d ∈ c.dots, (d.afterRound? w c.dots).isSome = true := by
    intro d hd
    obtain ⟨k, hk⟩ := List.mem_iff_getElem?.mp hd
    obtain ⟨d', hd', -⟩ := dot_at_end hsteady (horder.orderlyAt _) (hsilent d hd) hact hk
    rw [hd']
    rfl
  obtain ⟨ends, hends⟩ := actAll_completes hsteady horder hsettled (Nat.le_refl _)
  rw [hact] at hends
  cases hends
  exact ⟨hsettled, rfl⟩

/-- From the same dots in another order, the round leaves the same dots. -/
theorem swept_perm {c' t' : Scene} (hperm : c.dots.Perm c'.dots) (hsteady : Steady w c.dots)
    (hsteady' : Steady w c'.dots) (horder : Orderly c.dots)
    (hsilent : ∀ d ∈ c.dots, d.isSilent w = true) (hact : actAll w c.dots.length c = .ok () t)
    (hact' : actAll w c'.dots.length c' = .ok () t') :
    (sweep c.dots.length t.dots).Perm (sweep c'.dots.length t'.dots) := by
  have horder' : Orderly c'.dots := horder.perm hperm
  have hsilent' : ∀ d ∈ c'.dots, d.isSilent w = true := by
    intro d hd
    exact hsilent d (hperm.mem_iff.mpr hd)
  have hsame : Dot.afterRound? w c'.dots = Dot.afterRound? w c.dots := by
    funext d
    exact (Dot.afterRound?_congr (pair?_perm horder hperm)).symm
  rw [swept_eq hsteady horder hsilent hact, swept_eq hsteady' horder' hsilent' hact', hsame]
  exact ((hperm.filterMap _).filter _).append (hperm.flatMap_right _)

/-- The order of the dots has no part in a parallel tick in which no dot prints,
    reads or stops the run, and in which no cell has two masters or two others
    after the choosing.  From a list with the same dots in another order the
    dots choose and act too, the tick ends in the same way, and the dots
    afterwards are the same but for their order. -/
theorem parallelTick_perm (hperm : s.dots.Perm r.dots) (hconsole : r.console = s.console)
    (hchoose : chooseAll w s.dots.length s = .ok () c)
    (hact : actAll w s.dots.length c = .ok () t)
    (hsilent : ∀ d ∈ c.dots, d.isSilent w = true) (hfree : Uncontended c.dots) :
    EndAlike (fun s r => s.dots.Perm r.dots) (parallelTick w s) (parallelTick w r) := by
  have horder := hfree.orderly
  obtain ⟨hall, hc⟩ := chooseAll_ok_iff.mp hchoose
  have hsteady := steady_chooseAll hchoose
  have hround : actAll w c.dots.length c = .ok () t := by
    rw [← hall.length_eq]
    exact hact
  obtain ⟨hsettled, hquiet⟩ := settled_of_completes hsteady horder hsilent hround
  -- The dots of the other list make the same choices.
  obtain ⟨dots', hall', hperm'⟩ := List.perm_comp_forall₂ hperm.symm hall
  have hchoose' : chooseAll w r.dots.length r = .ok () { r with dots := dots' } :=
    chooseAll_ok_iff.mpr ⟨hall', rfl⟩
  have hsteady' := steady_chooseAll hchoose'
  have horder' : Orderly dots' := horder.perm hperm'.symm
  -- What becomes of a dot is settled in the one order, hence in the other, and the round
  -- completes.
  have hsettled' : ∀ d ∈ dots', (d.afterRound? w dots').isSome = true := by
    intro d hd
    rw [Dot.afterRound?_congr (pair?_perm horder' hperm')]
    exact hsettled d (hperm'.mem_iff.mp hd)
  obtain ⟨ends, hround'⟩ := actAll_completes hsteady' horder' hsettled' (Nat.le_refl _)
  have hact' : actAll w r.dots.length { r with dots := dots' } = .ok () { r with dots := ends } := by
    rw [hall'.length_eq]
    exact hround'
  have hswept : (sweep s.dots.length t.dots).Perm (sweep r.dots.length ends) := by
    rw [hall.length_eq, hall'.length_eq]
    exact swept_perm hperm'.symm hsteady hsteady' horder hsilent hround hround'
  have hunchanged : t.console = s.console := by
    rw [hquiet, hc]
  rw [parallelTick_eq hchoose hact, parallelTick_eq hchoose' hact']
  exact Scene.tick_perm hswept (hconsole.trans hunchanged.symm)

/-- The tick in which two dots meet at an operator, with the two in the one
    order and in the other. -/
theorem either_order_at_onePlusTwo :
    ∃ m s s' r r', launchAlone onePlusTwo = (m, none) ∧ loop m.world true 6 m.scene = .ok () s ∧
      r.dots = s.dots.reverse ∧ r.dots ≠ s.dots ∧ parallelTick m.world s = .ok () s' ∧
      parallelTick m.world r = .ok () r' ∧ s'.dots.Perm r'.dots := by
  have htrial : trial onePlusTwo 6 (fun s c _ =>
      decide (s.dots.reverse ≠ s.dots) && decide (Uncontended c.dots) &&
        c.dots.all (Dot.isSilent (launchAlone onePlusTwo).1.world)) = true := by
    decide +kernel
  obtain ⟨m, s, c, t, s', hm, hs, htick, hcheck⟩ := exists_of_trial htrial
  simp only [hm, Bool.and_eq_true, decide_eq_true_eq, List.all_eq_true] at hcheck
  obtain ⟨⟨hne, hfree⟩, hsilent⟩ := hcheck
  have hs' := parallelTick_ok_iff.mpr ⟨c, t, htick⟩
  have halike := parallelTick_perm (r := { s with dots := s.dots.reverse })
    s.dots.reverse_perm.symm rfl htick.choosing htick.acting hsilent hfree
  obtain ⟨r', hr', hperm⟩ := halike.ok_left hs'
  exact ⟨m, s, s', _, r', hm, hs, rfl, hne, hs', hr', hperm⟩

end Machine

end DotPaths
