import DotPaths.Proofs.Moments

/-! # Programs that stay in the integers

    Of all operations only division and powers lead out of the integers.  Where
    neither stands between brackets, every dot carries integers as its value and
    as its id, at every moment of every run: what is drawn, what is read and what
    is copied are integers, and so is what two dots make of integers.

    So an operator can fail in three ways only: as a remainder by zero, as a
    character that names no operation, or as a typographic one.  And no run stops
    because an integer is needed where there is none.
-/

namespace DotPaths

open Scene

/-! ## Integers -/

namespace Number

/-- The number is an integer. -/
def IsWhole (a : Number) : Prop := ∃ n : Int, a = .int n

theorem isWhole_int (n : Int) : (Number.int n).IsWhole := ⟨n, rfl⟩

theorem IsWhole.orZero {a : Number} (h : a.IsWhole) : a.orZero.IsWhole := by
  obtain ⟨n, rfl⟩ := h
  rw [orZero_int]
  exact isWhole_int n

theorem IsWhole.takeDigit {a : Number} (h : a.IsWhole) (e : Entry) (digit : Nat) :
    (Dot.takeDigit e a digit).IsWhole := by
  obtain ⟨n, rfl⟩ := h
  unfold Dot.takeDigit
  split
  · exact isWhole_int _
  · exact isWhole_int _

end Number

namespace Operator

/-- How an operator cell with this character can fail between integers. -/
inductive Refuses : Char → ArithFault → Prop where
  | byZero : Refuses '%' (.moduloByZero .whole)
  | unknown {glyph : Char} :
      plainFor? (String.singleton glyph) = none → ofPlain? (String.singleton glyph) = none →
      Refuses glyph (.unknownOperator (String.singleton glyph))
  | typographic {glyph : Char} {plain : String} :
      plainFor? (String.singleton glyph) = some plain →
      Refuses glyph (.typographicOperator (String.singleton glyph) plain)

/-- The character that names an operation. -/
def glyph : Operator → Char
  | .add => '+'
  | .sub => '-'
  | .mul => '*'
  | .div => '/'
  | .pow => '^'
  | .mod => '%'
  | .or => 'o'
  | .xor => 'x'
  | .and => '&'
  | .ne => '!'
  | .eq => '='
  | .gt => '>'
  | .ge => 'G'
  | .lt => '<'
  | .le => 'L'

theorem eq_glyph_of_ofPlain? {c : Char} {op : Operator}
    (h : ofPlain? (String.singleton c) = some op) : c = op.glyph := by
  generalize hsymbol : String.singleton c = symbol at h
  have hlist : [c] = symbol.toList := by
    rw [← hsymbol, String.toList_singleton]
  -- Each name is one character long, so it gives the character away.
  unfold ofPlain? at h
  split at h <;> cases h <;> exact List.singleton_inj.mp hlist

/-- Of two integers, all operations but division and powers make an integer or a
    truth; only the remainder may fail. -/
theorem apply_int {op : Operator} (hdiv : op ≠ .div) (hpow : op ≠ .pow) (m n : Int) :
    (∃ a, op.apply (.int m) (.int n) = .ok a ∧ a.toNumber.IsWhole) ∨
      op = .mod ∧ op.apply (.int m) (.int n) = .error (.moduloByZero .whole) := by
  cases op with
  | div => exact absurd rfl hdiv
  | pow => exact absurd rfl hpow
  | mod =>
    by_cases hn : n = 0
    · subst hn
      exact .inr ⟨rfl, rfl⟩
    · refine .inl ⟨.number (.int (m.fmod n)), ?_, ⟨_, rfl⟩⟩
      show ((if n == 0 then throw (.moduloByZero .whole) else pure (.int (m.fmod n)) :
        Except ArithFault Number).map Answer.number) = _
      rw [if_neg (by simpa using hn)]
      rfl
  | add | sub | mul | or | xor | and | ne | eq | gt | ge | lt | le =>
    -- These cannot fail, and a truth counts as one or zero.
    exact .inl ⟨_, rfl, ⟨_, rfl⟩⟩

/-- The same for the operation that a character names. -/
theorem calculate_int {glyph : Char} (hdiv : glyph ≠ '/') (hpow : glyph ≠ '^') (m n : Int) :
    (∃ a, calculate (String.singleton glyph) (.int m) (.int n) = .ok a ∧ a.toNumber.IsWhole) ∨
      ∃ f, calculate (String.singleton glyph) (.int m) (.int n) = .error f ∧ Refuses glyph f := by
  unfold calculate ofSymbol
  cases hplain : plainFor? (String.singleton glyph) with
  | some plain => exact .inr ⟨_, rfl, .typographic hplain⟩
  | none =>
    cases hop : ofPlain? (String.singleton glyph) with
    | none => exact .inr ⟨_, rfl, .unknown hplain hop⟩
    | some op =>
      have hglyph := eq_glyph_of_ofPlain? hop
      have hdiv' : op ≠ .div := fun h => hdiv (by rw [hglyph, h]; rfl)
      have hpow' : op ≠ .pow := fun h => hpow (by rw [hglyph, h]; rfl)
      rcases apply_int hdiv' hpow' m n with ⟨a, ha, hwhole⟩ | ⟨rfl, hzero⟩
      · exact .inl ⟨a, ha, hwhole⟩
      · rw [hglyph]
        exact .inr ⟨_, hzero, .byZero⟩

end Operator

/-! ## Drawings and dots -/

/-- Neither a division nor a power stands between brackets. -/
def World.NoFractions (w : World) : Prop :=
  ∀ p c, w.cell? p = some c → c.kind.bracket?.isSome = true → c.glyph ≠ '/' ∧ c.glyph ≠ '^'

namespace Dot

/-- Both numbers of the dot are integers. -/
structure IsWhole (d : Dot) : Prop where
  value : d.value.IsWhole
  id : d.id.IsWhole

variable {w : World} {c : Cell} {d d' : Dot}

/-- Only the two numbers matter. -/
theorem IsWhole.same (h : d.IsWhole) (hvalue : d'.value = d.value) (hid : d'.id = d.id) :
    d'.IsWhole :=
  ⟨hvalue ▸ h.value, hid ▸ h.id⟩

theorem IsWhole.settled (h : d.IsWhole) : (d.settled w).IsWhole :=
  h.same (settled_keeps (f := Dot.value) w rfl) (settled_keeps (f := Dot.id) w rfl)

theorem IsWhole.stake (h : d.IsWhole) (m : Meeting) : (d.stake m).IsWhole := by
  unfold Dot.stake
  split
  · exact h.id
  · exact h.value

theorem IsWhole.branches (h : d.IsWhole) {o : Dot} (ho : o ∈ d.branches w) : o.IsWhole := by
  obtain ⟨dir, -, rfl⟩ := List.mem_map.mp ho
  exact ⟨h.value.orZero, h.id.orZero⟩

/-- After a deed the dot and those that set out carry integers. -/
def LeadsToWhole (d : Dot) (new : List Dot) : Prop := d.IsWhole ∧ ∀ o ∈ new, o.IsWhole

theorem IsWhole.alone (h : d.IsWhole) (hvalue : d'.value = d.value) (hid : d'.id = d.id) :
    LeadsToWhole d' [] :=
  ⟨h.same hvalue hid, fun _ ho => nomatch ho⟩

theorem travelDeed_whole (h : d.IsWhole) : (d.travelDeed w c).Ensures LeadsToWhole := by
  unfold travelDeed
  split
  · exact h.alone rfl rfl
  · split
    · exact ⟨h.same rfl rfl, fun o ho => h.branches ho⟩
    · split
      · split
        · unfold leave
          split
          · split <;> trivial
          · exact h.alone rfl rfl
        · unfold warpThrough
          dsimp only
          split
          · trivial
          · trivial
          · refine h.alone ?_ ?_ <;> split <;> rfl
      · exact h.alone rfl rfl

theorem printDeed_whole {p : Printing} (h : d.IsWhole) :
    (d.printDeed c p).Ensures LeadsToWhole := by
  have hnumber : ∀ a, (d.printNumber p a).Ensures LeadsToWhole := by
    intro a
    unfold printNumber
    split
    · exact h.alone rfl rfl
    · trivial
  unfold printDeed
  repeat' split
  · exact h.alone rfl rfl
  · exact h.alone rfl rfl
  · exact h.alone rfl rfl
  · exact hnumber _
  · exact hnumber _
  · exact h.alone rfl rfl

theorem quoteDeed_whole {q : Quoting} (h : d.IsWhole) :
    (d.quoteDeed c q).Ensures LeadsToWhole := by
  unfold quoteDeed doubleDeed singleDeed
  dsimp only
  repeat' split
  all_goals exact h.alone rfl rfl

/-- A number that is taken up: the sign that began it says which one of the two
    it is. -/
theorem entryDeed_whole {e : Entry} {a : Number} {set : Dot → Number → Dot}
    {phase : Entry → Phase} (h : d.IsWhole) (ha : a.IsWhole)
    (hset : ∀ n : Number, n.IsWhole → (set d n).IsWhole) :
    (d.entryDeed c e a set phase).Ensures LeadsToWhole := by
  unfold entryDeed
  split
  · exact h.alone rfl rfl
  · split
    · exact (hset _ (ha.takeDigit e _)).alone rfl rfl
    · split
      · exact h.alone rfl rfl
      · split
        · -- What is read is an integer, whatever the input is.
          exact fun n => (hset _ (Number.isWhole_int n)).alone rfl rfl
        · exact h.alone rfl rfl

/-- A dot that waits for nobody takes integers to integers. -/
theorem deed_whole (hphase : ∀ m, d.phase ≠ .meet m) (h : d.IsWhole) :
    (d.deed w c).Ensures LeadsToWhole := by
  unfold deed
  cases hp : d.phase with
  | blank => trivial
  | travel => exact travelDeed_whole h
  | value e => exact entryDeed_whole h h.value fun n hn => ⟨hn, h.id⟩
  | ident e => exact entryDeed_whole h h.id fun n hn => ⟨h.value, hn⟩
  | print p => exact printDeed_whole h
  | quote q => exact quoteDeed_whole h
  | meet m => exact absurd hp (hphase m)
  | dead => exact h.alone rfl rfl
  | exit => trivial

end Dot

/-! ## Meetings -/

namespace Meeting

variable {w : World} {m : Meeting} {c : Cell} {d : Dot} {n : Number}

/-- Where two dots wait for an operation, the operator on the cell decides. -/
theorem Fits.outcome_eq (hfits : m.Fits c d.dir) (hm : m.purpose ≠ .switch) :
    c.kind.bracket?.isSome = true ∧ m.outcome c d n =
      match Operator.calculate (String.singleton c.glyph) (d.stake m) n with
      | .ok a => .ok (d.setStake m a.toNumber)
      | .error f => .error (.arith f) := by
  unfold Meeting.Fits at hfits
  unfold Meeting.outcome
  cases hp : m.purpose with
  | none =>
    rw [hp] at hfits
    exact hfits.elim
  | switch => exact absurd hp hm
  | square | curly =>
    rw [hp] at hfits
    cases Operator.calculate (String.singleton c.glyph) (d.stake m) n <;>
      simp [hfits.1, CellKind.bracket?, CellKind.isOperator]

theorem setStake_whole (hd : d.IsWhole) (hn : n.IsWhole) : (d.setStake m n).IsWhole := by
  unfold Dot.setStake
  split
  · exact ⟨hd.value, hn⟩
  · exact ⟨hn, hd.id⟩

/-- Two dots with integers make an integer of them, unless an operator fails in one
    of the three ways. -/
theorem Fits.outcome_whole (hw : w.NoFractions) (hc : w.cell? d.pos = some c)
    (hfits : m.Fits c d.dir) (hd : d.IsWhole) (hn : n.IsWhole) :
    (∃ d', m.outcome c d n = .ok d' ∧ d'.IsWhole) ∨
      ∃ f, m.outcome c d n = .error (.arith f) ∧ Operator.Refuses c.glyph f := by
  by_cases hm : m.purpose = .switch
  · -- A switch turns the master aside and leaves its numbers alone.
    unfold Meeting.outcome
    rw [hm]
    refine .inl ⟨_, rfl, ?_⟩
    split
    · exact hd
    · exact hd.same rfl rfl
  -- An operator stands between brackets, so it is neither of the two.
  · obtain ⟨hbracket, heq⟩ := hfits.outcome_eq (n := n) hm
    obtain ⟨hdiv, hpow⟩ := hw d.pos c hc hbracket
    obtain ⟨a, ha⟩ := hd.stake m
    obtain ⟨b, rfl⟩ := hn
    rw [heq, ha]
    rcases Operator.calculate_int hdiv hpow a b with ⟨x, hx, hwhole⟩ | ⟨f, hf, hrefuses⟩
    · rw [hx]
      exact .inl ⟨_, rfl, setStake_whole hd hwhole⟩
    · rw [hf]
      exact .inr ⟨f, rfl, hrefuses⟩

end Meeting

/-! ## Turns -/

/-- Every dot carries integers. -/
def AllWhole (dots : List Dot) : Prop := ∀ d ∈ dots, d.IsWhole

section
variable {w : World} {i : Nat} {d : Dot} {s t : Scene} {e : Stop} {dots : List Dot}

theorem AllWhole.get {k : Nat} (h : AllWhole dots) (hd : dots[k]? = some d) : d.IsWhole :=
  h d (List.mem_of_getElem? hd)

theorem AllWhole.set (h : AllWhole dots) (hd : d.IsWhole) : AllWhole (dots.set i d) := by
  intro o ho
  rcases List.mem_or_eq_of_mem_set ho with hmem | rfl
  · exact h o hmem
  · exact hd

namespace Turn

theorem choose_whole (h : AllWhole s.dots) : AllWhole (endState (choose w i s)).dots := by
  cases hr : choose w i s with
  | ok u t =>
    obtain ⟨d, d', hd, hd', rfl⟩ := choose_ok_iff.mp hr
    have hwhole : d'.IsWhole := by
      rcases Dot.chosen_ok hd' with rfl | ⟨c, phase, -, -, -, rfl⟩
      · exact (h.get hd).same rfl rfl
      · exact (h.get hd).same rfl rfl
    exact h.set hwhole
  | error e t =>
    rw [(choose_error_scene hr).1]
    exact h

/-- A turn that completes takes integers to integers. -/
theorem act_ok_whole (hw : w.NoFractions) (hs : AllStand w s.dots) (h : AllWhole s.dots)
    (hr : act w i s = .ok () t) : AllWhole t.dots := by
  obtain ⟨d, hd, hcases⟩ := act_ok hr
  have hwhole := h.get hd
  rcases hcases with ⟨-, hdots⟩ | ⟨c, rest, d', hc, hdoes, hdots⟩
  · rw [hdots]
    exact h.set (hwhole.same rfl rfl)
  · cases hdoes with
    | alone hphase _ _ =>
      -- Besides the dot there may be others that set out.
      obtain ⟨d₁, new, hleads, hdots⟩ := act_leads hr hd hc hphase
      obtain ⟨hd₁, hnew⟩ := (Dot.deed_whole hphase hwhole).leads hleads
      rw [hdots]
      refine AllWhole.set ?_ hd₁.settled
      intro o ho
      rcases List.mem_append.mp ho with hold | hset
      · exact h o hold
      · exact hnew o hset
    | wait =>
      rw [hdots]
      exact h.set (Dot.IsWhole.settled (hwhole.same rfl rfl))
    | @meet m n j o r hphase _ _ _ ho hn hout =>
      -- The master goes on with the outcome, and the other one is dead.
      have hfits := (hs.get hd).poised.fits m c hphase hc
      have hr' : r.IsWhole := by
        rcases hfits.outcome_whole hw hc hwhole ((h.get ho).stake n) with
          ⟨r', hr', hwhole'⟩ | ⟨f, hf, -⟩
        · rw [hout] at hr'
          cases hr'
          exact hwhole'
        · rw [hout] at hf
          cases hf
      rw [hdots]
      refine AllWhole.set (h.set ((h.get ho).same rfl rfl)) ?_
      exact Dot.IsWhole.settled (hr'.same rfl rfl)

theorem act_whole (hw : w.NoFractions) (hs : AllStand w s.dots) (h : AllWhole s.dots) :
    AllWhole (endState (act w i s)).dots := by
  cases hr : act w i s with
  | ok u t => exact act_ok_whole hw hs h hr
  | error e t =>
    rcases act_error_dots hr with hsame | ⟨d, d', hd, hleft, hset⟩
    · exact hsame ▸ h
    · exact hset ▸ h.set ((h.get hd).same hleft.value hleft.id)

end Turn

end

/-! ## Why integers fail -/

/-- Is an integer needed where there is none?  So it is with operations and
    comparisons that only some kinds of numbers have, and with the codes of
    characters. -/
def ArithFault.needsWhole : ArithFault → Bool
  | .unsupported .. | .unordered .. | .notWhole _ => true
  | _ => false

/-- Does a run stop because an integer is needed where there is none? -/
def Stop.needsWhole : Stop → Bool
  | .fault (.arith f) => f.needsWhole
  | _ => false

theorem Stop.OfService.not_needsWhole {e : Stop} (h : e.OfService) : e.needsWhole = false := by
  unfold needsWhole
  split
  · rcases h with rfl | rfl <;> rfl
  · rfl

theorem Stop.OfTravel.not_needsWhole {e : Stop} (h : e.OfTravel) : e.needsWhole = false := by
  unfold needsWhole
  split
  · cases h
    rfl
  · rfl

theorem Operator.Refuses.not_needsWhole {glyph : Char} {f : ArithFault} (h : Refuses glyph f) :
    f.needsWhole = false := by
  cases h <;> rfl

/-- An integer is printed unless it is too long, too wide or out of range. -/
theorem Dot.printed_int {p : Printing} {n : Int} {f : ArithFault}
    (h : printed p (.int n) = .error f) : f.needsWhole = false := by
  unfold printed at h
  cases hbyCode : p.byCode with
  | true =>
    cases hcode : (Number.int n).toCode with
    | error g =>
      simp only [hbyCode, if_true, hcode] at h
      cases h
      rcases Number.toCode_error hcode with rfl | rfl <;> rfl
    | ok code =>
      simp only [hbyCode, if_true, hcode] at h
      cases h
  | false =>
    cases hnewline : p.newline with
    | true =>
      cases htext : (Number.int n).text with
      | error g =>
        simp only [hbyCode, Bool.false_eq_true, if_false, hnewline, if_true, htext] at h
        cases h
        rw [Number.text_error htext]
        rfl
      | ok text =>
        simp only [hbyCode, Bool.false_eq_true, if_false, hnewline, if_true, htext] at h
        cases h
    | false =>
      simp only [hbyCode, Bool.false_eq_true, if_false, hnewline] at h
      cases h

/-- A dot with integers does not stop the run for want of one. -/
theorem Dot.deed_stops_whole {w : World} {c : Cell} {d : Dot} (h : d.IsWhole) :
    (d.deed w c).Stops fun e => e.needsWhole = false := by
  unfold deed
  cases d.phase with
  | blank => rfl
  | travel => exact travelDeed_stops.mono fun _ => Stop.OfTravel.not_needsWhole
  | value e => exact entryDeed_stops
  | ident e => exact entryDeed_stops
  | print p =>
    refine printDeed_fails p fun a f ha hf => ?_
    have hwhole : a.IsWhole := by
      rcases ha with rfl | rfl
      · exact h.value
      · exact h.id
    obtain ⟨n, rfl⟩ := hwhole
    exact printed_int hf
  | quote q => exact quoteDeed_stops
  | meet m => trivial
  | dead => trivial
  | exit => rfl

section
variable {w : World} {i : Nat} {d : Dot} {s t : Scene} {e : Stop}

namespace Turn

/-- An operation that stops the run has failed in one of the three ways. -/
theorem firing_error {m : Meeting} (hw : w.NoFractions) (hs : AllStand w s.dots)
    (h : AllWhole s.dots) (hd : s.dots[i]? = some d) (hm : d.phase = .meet m)
    (herror : act w i s = .error e t) :
    ∃ c f, w.cell? d.pos = some c ∧ e = .fault (.arith f) ∧ Operator.Refuses c.glyph f := by
  obtain ⟨c, hc, hp⟩ := act_error_deed hd herror
  have hdeed : d.deed w c = .meet m := by simp [Dot.deed, hm]
  rw [hdeed] at hp
  obtain ⟨-, o, n, g, ho, hn, hout, rfl⟩ := meeting_error hd hp
  have hfits := (hs.get hd).poised.fits m c hm hc
  rcases hfits.outcome_whole hw hc (h.get hd) ((h o ho).stake n) with ⟨d', hd', -⟩ | ⟨f, hf, hrefuses⟩
  · rw [hout] at hd'
    cases hd'
  · rw [hout] at hf
    cases hf
    exact ⟨c, f, hc, rfl, hrefuses⟩

/-- No turn stops for want of an integer. -/
theorem act_error_whole (hw : w.NoFractions) (hs : AllStand w s.dots) (h : AllWhole s.dots)
    (herror : act w i s = .error e t) : e.needsWhole = false := by
  cases hd : s.dots[i]? with
  | none =>
    unfold act at herror
    rw [dotAt_bind_of_none hd] at herror
    cases herror
    rfl
  | some d =>
    -- Whoever waits may fail by its operator, all others by their own deed or by the
    -- console.
    by_cases hphase : ∃ m, d.phase = .meet m
    · obtain ⟨m, hm⟩ := hphase
      obtain ⟨c, f, -, rfl, hrefuses⟩ := firing_error hw hs h hd hm herror
      exact hrefuses.not_needsWhole
    · have hphase : ∀ m, d.phase ≠ .meet m := fun m hm => hphase ⟨m, hm⟩
      obtain ⟨c, hc, hp⟩ := act_error_deed hd herror
      have hstops := Dot.deed_stops_whole (w := w) (c := c) (h.get hd)
      have hne := (Dot.deed_goesOn hphase hc).ne_meet
      have hfails := perform_fails hp
      generalize d.deed w c = deed at hstops hne hfails
      cases hfails with
      | output hout =>
        obtain ⟨k, hk⟩ := onConsole_error hout
        exact (Console.output_stops _ _ _ _ hk).not_needsWhole
      | input hread =>
        obtain ⟨k, hk⟩ := onConsole_error hread
        exact (Console.read_stops _ _ _ _ hk).not_needsWhole
      | @meeting m => exact absurd rfl (hne m)
      | stop d' why => exact hstops

end Turn

end

/-! ## Runs -/

namespace Machine

variable {w : World} {s : Scene}

/-- Every part of a tick takes integers to integers. -/
theorem keptByParts_whole (hw : w.NoFractions) :
    KeptByParts w fun dots => AllStand w dots ∧ AllWhole dots := by
  refine ⟨fun h => h.1, ?_, ?_, ?_⟩
  · exact fun h => ⟨allStand_choose h.1, Turn.choose_whole h.2⟩
  · exact fun h => ⟨allStand_act h.1, Turn.act_whole hw h.1 h.2⟩
  · exact fun hsub h => ⟨fun d hd => h.1 d (hsub hd), fun d hd => h.2 d (hsub hd)⟩

theorem Moment.allWhole (h : Moment w s) (hw : w.NoFractions) : AllWhole s.dots := by
  refine (h.keeps (keptByParts_whole hw) ?_).2
  intro shelf program dots hbuild hborn
  -- Every dot starts out with zeros.
  refine ⟨fun d hd => (hborn d hd).stands hbuild, fun d hd => ?_⟩
  exact ⟨⟨0, (hborn d hd).value⟩, ⟨0, (hborn d hd).id⟩⟩

/-- No part of a tick stops for want of an integer. -/
theorem covers_whole (hw : w.NoFractions) : Covers w fun e => e.needsWhole = false := by
  refine .of_turns rfl ?_ ?_ ?_
  · intro s i e t _ herror
    rcases (Turn.choose_error_scene herror).2 with rfl | rfl | rfl <;> rfl
  · exact fun hs herror => Turn.act_error_whole hw hs.allStand (hs.allWhole hw) herror
  · exact fun herror => (Scene.tick_serves w _ _ _ herror).not_needsWhole

/-- Without divisions and powers between brackets, every dot carries integers at
    every moment of every run.  So the operator where a dot waits can stop the run in
    the three ways only, by a turn of the dot and by a step.  No part of a tick stops
    for want of an integer, be it for an operation or for a character to print, and no
    run does. -/
theorem integers_stay {w : World} {s : Scene} (hw : w.NoFractions) (h : Moment w s) :
    AllWhole s.dots ∧
    (∀ i d m e t, s.dots[i]? = some d → d.phase = .meet m → Turn.act w i s = .error e t →
      ∃ c f, w.cell? d.pos = some c ∧ e = .fault (.arith f) ∧ Operator.Refuses c.glyph f) ∧
    (∀ i d c m e t, s.dots[i]? = some d → w.cell? d.pos = some c → d.choose c = .ok (.meet m) →
      Turn.stepOnce w i s = .error e t →
      ∃ f, e = .fault (.arith f) ∧ Operator.Refuses c.glyph f) ∧
    (∀ a e t, Part w a → a s = .error e t → e.needsWhole = false) ∧
    ∀ parallel n e t, loop w parallel n s = .error e t → e.needsWhole = false := by
  refine ⟨h.allWhole hw, ?_, ?_, ?_, ?_⟩
  · exact fun i d m e t hd hm herror =>
      Turn.firing_error hw h.allStand (h.allWhole hw) hd hm herror
  · intro i d c m e t hd hc hchoose herror
    -- In its step the dot begins to wait, and then it acts.
    have hstands := h.allStand.get hd
    have hfirst : Turn.choose w i s =
        .ok () { s with dots := s.dots.set i { d with phase := .meet m } } :=
      Turn.choose_ok_iff.mpr ⟨d, _, hd, hstands.chosen_eq hc hchoose, rfl⟩
    have hu := h.goes (.choose i)
    rw [hfirst] at hu
    rw [← Turn.choose_act_eq_stepOnce hd hstands, bind_of_ok hfirst] at herror
    have hd' := List.getElem?_set_self (a := { d with phase := .meet m })
      (List.getElem?_eq_some_iff.mp hd).1
    obtain ⟨c', f, hc', hf, hrefuses⟩ :=
      Turn.firing_error (d := { d with phase := .meet m }) hw hu.allStand (hu.allWhole hw) hd' rfl
        herror
    cases hc.symm.trans hc'
    exact ⟨f, hf, hrefuses⟩
  · exact fun a e t ha herror => (covers_whole hw).part h ha herror
  · exact fun parallel n e t herror => (goes_loop (covers_whole hw) h).2 e t herror

theorem stop?_eq_some {r : EStateM.Result Stop Scene Unit} {e : Stop} (h : stop? r = some e) :
    ∃ t, r = .error e t := by
  cases r with
  | ok u t => cases h
  | error e' t =>
    cases h
    exact ⟨t, rfl⟩

theorem noFractions_of_all (h : w.rows.all (·.all fun c =>
    c.kind.bracket?.isNone || c.glyph != '/' && c.glyph != '^') = true) : w.NoFractions := by
  intro p c hc hbracket
  obtain ⟨row, hrow, hmem⟩ := World.mem_rows_of_cell? hc
  have hcell := List.all_eq_true.mp (List.all_eq_true.mp h row hrow) c hmem
  rw [Option.isNone_eq_false_iff.mpr hbracket] at hcell
  simpa using hcell

/-- The remainder of zero by zero, between curly brackets. -/
def zeroByZero : String := "   .\n   |\n   |\n.-\x7b%\x7d"

/-- The scene in which this program stops, in its fourth tick. -/
def zeroByZeroEnd : Scene :=
  endState (loop (launchAlone zeroByZero).1.world true 4 (launchAlone zeroByZero).1.scene)

/-- There the second dot waits at the operator and has failed with the remainder by
    zero, while both dots carry integers. -/
theorem integers_stay_at_zeroByZero :
    ∃ m d k t, launchAlone zeroByZero = (m, none) ∧ m.world.NoFractions ∧
      Moment m.world zeroByZeroEnd ∧ zeroByZeroEnd.dots[1]? = some d ∧ d.phase = .meet k ∧
      Turn.act m.world 1 zeroByZeroEnd = .error (.fault (.arith (.moduloByZero .whole))) t ∧
      AllWhole zeroByZeroEnd.dots ∧
      ∃ c f, m.world.cell? d.pos = some c ∧
        Stop.fault (.arith (.moduloByZero .whole)) = .fault (.arith f) ∧
        Operator.Refuses c.glyph f := by
  have hlaunch : (launchAlone zeroByZero).2 = none := by decide +kernel
  have hm : launchAlone zeroByZero = ((launchAlone zeroByZero).1, none) := by rw [← hlaunch]
  have hw : (launchAlone zeroByZero).1.world.NoFractions := noFractions_of_all (by decide +kernel)
  have hs : Moment (launchAlone zeroByZero).1.world zeroByZeroEnd := (Moment.launched hm rfl).loop
  have hwaits : (zeroByZeroEnd.dots[1]?.any (·.phase.isWaiting)) = true := by decide +kernel
  have hstop : stop? (Turn.act (launchAlone zeroByZero).1.world 1 zeroByZeroEnd) =
      some (.fault (.arith (.moduloByZero .whole))) := by
    decide +kernel
  obtain ⟨d, hd, hwaiting⟩ := Option.any_eq_true _ _ |>.mp hwaits
  obtain ⟨k, hk⟩ := Option.isSome_iff_exists.mp hwaiting
  have hphase := Phase.eq_meet_of_meeting? hk
  obtain ⟨t, ht⟩ := stop?_eq_some hstop
  obtain ⟨hwhole, hfiring, -⟩ := integers_stay hw hs
  exact ⟨_, d, k, t, hm, hw, hs, hd, hphase, ht, hwhole, hfiring 1 d k _ t hd hphase ht⟩

end Machine

end DotPaths
