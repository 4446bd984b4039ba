import DotPaths.Proofs.Execution
import DotPaths.Proofs.Literals

/-! # Printing along a row

    In a parallel tick each dot prints in its own turn, before and after the turns of
    others.  This module follows one dot that goes through a row of characters and
    prints at some of them, with any other dots around.

    - `OthersGoOn`: whatever would stop the tick, it is not one of the others, nor a
      limit of the console.
    - `Stretch.printedAt`: what a dot prints in its turn of a tick.
    - `Phase.PrintsAlong`: the phases that a dot goes through on a row of characters, with
      what it prints at each of them.
    - `prints_along`: a dot on such a row gets through it and prints just that.
-/

namespace DotPaths

/-! ## The console -/

namespace Console

/-- Can something be printed without a limit being reached? -/
def hasRoom (c : Console) : Bool :=
  match c.service with
  | .bare => false
  | .recorder => true
  | .terminal _ => !(countDown c.outputsLeft).2

/-- What has been printed since the console was `c`, in order. -/
def since (c c' : Console) : List String :=
  (c'.outputs.take (c'.outputs.length - c.outputs.length)).reverse

variable {c c' : Console} {text : String}

theorem since_eq {out : List String} (h : c'.outputs = out.reverse ++ c.outputs) :
    c.since c' = out := by
  simp [since, h]

/-- Characters can always be shown, and nothing is recorded by this. -/
theorem display_keeps (d : Display) (text : String) (c : Console) :
    ∃ c', display d text c = .ok () c' ∧ c'.texts = c.texts := by
  unfold display
  split
  · exact ⟨c, rfl, rfl⟩
  · cases d.view with
    | off => exact ⟨_, write_of_encodable (CodeText.isEncodable_ofString text) c, rfl⟩
    | plain => exact ⟨_, rfl, rfl⟩
    | windowed =>
      show ∃ c', putInPad d text c = .ok () c' ∧ _
      unfold putInPad
      cases (CodeText.ofString text).getLast? == some (.char '\n') with
      | true => exact ⟨_, rfl, rfl⟩
      | false => exact ⟨_, rfl, rfl⟩

/-- Where there is room, what is printed is recorded. -/
theorem output_recorded (h : c.hasRoom = true) (text : String) :
    ∃ c', output (.text text) c = .ok () c' ∧ c'.outputs = text :: c.outputs := by
  have houtputs : (CodeText.ofString text :: c.texts).map CodeText.shown = text :: c.outputs := by
    simp [outputs]
  unfold hasRoom at h
  cases hservice : c.service with
  | bare =>
    rw [hservice] at h
    cases h
  | recorder =>
    unfold output
    rw [bind_of_ok (show (get : ConsoleAct Console) c = .ok c c from rfl), hservice]
    exact ⟨_, rfl, houtputs⟩
  | terminal d =>
    rw [hservice] at h
    have hleft : countDown c.outputsLeft = ((countDown c.outputsLeft).1, false) :=
      Prod.ext rfl (by simpa using h)
    obtain ⟨c', hc', htexts⟩ := display_keeps d text { c with
      outputsLeft := (countDown c.outputsLeft).1, texts := CodeText.ofString text :: c.texts }
    refine ⟨c', (output_of_room hservice rfl hleft).trans hc', ?_⟩
    unfold outputs
    rw [htexts]
    exact houtputs

/-- What could be printed had room. -/
theorem hasRoom_of_output {p : Payload} (h : output p c = .ok () c') : c.hasRoom = true := by
  unfold hasRoom
  cases hservice : c.service with
  | bare =>
    unfold output at h
    rw [bind_of_ok (show (get : ConsoleAct Console) c = .ok c c from rfl), hservice] at h
    cases h
  | recorder => rfl
  | terminal d =>
    cases hp : p.render with
    | error f =>
      rw [output_of_error hservice hp] at h
      cases h
    | ok text =>
      cases hleft : countDown c.outputsLeft with
      | mk left reached =>
        cases reached with
        | false => rfl
        | true =>
          rw [output_at_limit hservice hp hleft] at h
          cases h

end Console

/-! ## Turns that print a text or nothing -/

/-- Does the deed print? -/
def Deed.isPrint : Deed → Bool
  | .print _ _ _ => true
  | _ => false

namespace Turn

open Scene

variable {w : World} {i : Nat} {s t : Scene} {d d' : Dot} {c : Cell} {out : List String}

/-- If there is room for it, a turn that prints completes, and prints just that. -/
theorem act_prints (hd : s.dots[i]? = some d) (hc : w.cell? d.pos = some c)
    (hdeed : (d.deed w c).Prints out d')
    (hroom : (d.deed w c).isPrint = true → s.console.hasRoom = true) :
    ∃ t, act w i s = .ok () t ∧ t.console.outputs = out.reverse ++ s.console.outputs := by
  have hi := (List.getElem?_eq_some_iff.mp hd).1
  have hperform : ∃ t, perform c i (d.deed w c) s = .ok () t ∧ t.dots[i]? = some d' ∧
      t.console.outputs = out.reverse ++ s.console.outputs := by
    generalize d.deed w c = deed at hdeed hroom
    cases hdeed with
    | become => exact ⟨_, rfl, List.getElem?_set_self hi, rfl⟩
    | print text before =>
      obtain ⟨k, hk, houtputs⟩ := Console.output_recorded (hroom rfl) text
      have hconsole : onConsole (Console.output (.text text))
          { s with dots := s.dots.set i before } =
            .ok () { s with dots := s.dots.set i before, console := k } := by
        unfold onConsole
        rw [hk]
      refine ⟨{ s with dots := (s.dots.set i before).set i d', console := k }, ?_, ?_, houtputs⟩
      · show (setDot i before >>= fun _ => onConsole (Console.output (.text text)) >>= fun _ =>
          setDot i d') s = _
        rw [bind_of_ok (setDot_apply i before s), bind_of_ok hconsole]
        rfl
      · exact List.getElem?_set_self (by simpa using hi)
  obtain ⟨t, ht, hdot, houtputs⟩ := hperform
  exact ⟨_, act_of_perform hd hc ht hdot, houtputs⟩

theorem hasRoom_of_act (h : act w i s = .ok () t) (hd : s.dots[i]? = some d)
    (hc : w.cell? d.pos = some c) (hprint : (d.deed w c).isPrint = true) :
    s.console.hasRoom = true := by
  unfold act at h
  rw [bind_of_ok (dotAt_apply hd)] at h
  simp only [hc, bind_ok_iff] at h
  obtain ⟨_, u, hp, -⟩ := h
  generalize d.deed w c = deed at hp hprint
  cases deed with
  | print p before after =>
    unfold perform at hp
    simp only [bind_ok_iff] at hp
    obtain ⟨_, v, hv, _, v', hv', -⟩ := hp
    cases hv
    unfold onConsole at hv'
    split at hv'
    · next hout => exact Console.hasRoom_of_output hout
    · cases hv'
  | _ => cases hprint

/-- A turn that has completed has printed just what its deed prints. -/
theorem outputs_of_act (h : act w i s = .ok () t) (hd : s.dots[i]? = some d)
    (hc : w.cell? d.pos = some c) (hdeed : (d.deed w c).Prints out d') :
    t.console.outputs = out.reverse ++ s.console.outputs := by
  obtain ⟨t', ht', houtputs⟩ := act_prints hd hc hdeed (hasRoom_of_act h hd hc)
  cases h.symm.trans ht'
  exact houtputs

end Turn

/-! ## The others -/

namespace Machine

open Scene

/-- In the tick from the scene `s`, nothing stops the run but perhaps the dot with
    number `k`: the others choose and act, the console has room when that dot prints,
    and the tick is closed. -/
structure OthersGoOn (w : World) (s : Scene) (k : Nat) : Prop where
  choosing : ∀ i d, i ≠ k → s.dots[i]? = some d → ∃ d', d.chosen w = .ok d'
  acting : ∀ c t i, chooseAll w s.dots.length s = .ok () c → actAll w i c = .ok () t →
    i ≠ k → i < s.dots.length → ∃ t', Turn.act w i t = .ok () t'
  room : ∀ c t d x, chooseAll w s.dots.length s = .ok () c → actAll w k c = .ok () t →
    k < s.dots.length → t.dots[k]? = some d → w.cell? d.pos = some x →
    (d.deed w x).isPrint = true → t.console.hasRoom = true
  closing : ∀ c t, chooseAll w s.dots.length s = .ok () c →
    actAll w s.dots.length c = .ok () t →
    ∃ s', Scene.tick w { t with dots := sweep s.dots.length t.dots } = .ok () s'

section
variable {w : World} {s c t s' : Scene} {k n : Nat} {d e o : Dot} {x : Cell} {out : List String}

/-- A tick that completes was stopped by nobody. -/
theorem OthersGoOn.of_ticks (h : Ticks w s c t s') (k : Nat) : OthersGoOn w s k where
  choosing := by
    intro i d _ hd
    obtain ⟨e, -, he⟩ := exists_chosen h.choosing hd
    exact ⟨e, he⟩
  acting := by
    intro c' t' i hc' ht' _ hi
    cases h.choosing.symm.trans hc'
    obtain ⟨u, u', hu, hturn⟩ := actAll_turn h.acting hi
    cases ht'.symm.trans hu
    exact ⟨u', hturn⟩
  room := by
    intro c' t' d x hc' ht' hk hd hx hprint
    cases h.choosing.symm.trans hc'
    obtain ⟨u, u', hu, hturn⟩ := actAll_turn h.acting hk
    cases ht'.symm.trans hu
    exact Turn.hasRoom_of_act hturn hd hx hprint
  closing := by
    intro c' t' hc' ht'
    cases h.choosing.symm.trans hc'
    cases h.acting.symm.trans ht'
    exact ⟨s', h.closing⟩

theorem chooseAll_completes
    (h : ∀ (i : Nat) (d : Dot), s.dots[i]? = some d → ∃ d', d.chosen w = .ok d')
    (hn : n ≤ s.dots.length) : ∃ c, chooseAll w n s = .ok () c := by
  induction n with
  | zero => exact ⟨s, rfl⟩
  | succ n ih =>
    obtain ⟨t, ht⟩ := ih (by omega)
    have hn' : s.dots[n]? = some s.dots[n] := List.getElem?_eq_getElem hn
    obtain ⟨d', hd'⟩ := h n _ hn'
    have hsame := (chooseAll_upTo ht).2.2 n (Nat.le_refl n)
    exact ⟨_, chooseAll_succ_ok.mpr
      ⟨t, ht, Turn.choose_ok_iff.mpr ⟨_, d', hsame.trans hn', hd', rfl⟩⟩⟩

/-- If the others go on, a dot that prints a text or nothing does not stop the tick. -/
theorem OthersGoOn.ticks (h : OthersGoOn w s k) (hd : s.dots[k]? = some d)
    (hchosen : d.chosen w = .ok e) (hphase : ∀ m, e.phase ≠ .meet m)
    (hx : w.cell? e.pos = some x) (hdeed : (e.deed w x).Prints out o) :
    ∃ c t s', Ticks w s c t s' := by
  have hk := (List.getElem?_eq_some_iff.mp hd).1
  have hall : ∀ (i : Nat) (d : Dot), s.dots[i]? = some d → ∃ d', d.chosen w = .ok d' := by
    intro i d' hd'
    by_cases hi : i = k
    · subst hi
      cases hd.symm.trans hd'
      exact ⟨e, hchosen⟩
    · exact h.choosing i d' hi hd'
  obtain ⟨c, hc⟩ := chooseAll_completes hall (Nat.le_refl _)
  have hlen := (chooseAll_ok hc).1
  obtain ⟨e₁, he, he₁⟩ := exists_chosen hc hd
  obtain rfl : e = e₁ := Except.ok.inj (hchosen.symm.trans he₁)
  -- Turn after turn: the dot is as it chose when its own comes.
  have hturns : ∀ n, n ≤ s.dots.length → ∃ t, actAll w n c = .ok () t := by
    intro n
    induction n with
    | zero => exact fun _ => ⟨c, rfl⟩
    | succ n ih =>
      intro hn
      obtain ⟨t, ht⟩ := ih (by omega)
      by_cases hnk : n = k
      · subst hnk
        obtain ⟨e', he', hstanding⟩ :=
          (actAll_round (steady_chooseAll hc) (by omega) ht).dot n e he
        obtain rfl : e' = e := (hstanding.moving hphase).2 (Nat.le_refl n)
        obtain ⟨t', ht', -⟩ := Turn.act_prints he' hx hdeed (h.room c t e' x hc ht hk he' hx)
        exact ⟨t', actAll_succ_ok.mpr ⟨t, ht, ht'⟩⟩
      · obtain ⟨t', ht'⟩ := h.acting c t n hc ht hnk hn
        exact ⟨t', actAll_succ_ok.mpr ⟨t, ht, ht'⟩⟩
  obtain ⟨t, ht⟩ := hturns _ (Nat.le_refl _)
  obtain ⟨s', hs'⟩ := h.closing c t hc ht
  exact ⟨c, t, s', hc, ht, hs'⟩

end

/-! ## Ticks on end -/

namespace Stretch

variable {w : World} {n : Nat}

/-- One more tick. -/
def extend (run : Stretch w n) {c t s' : Scene} (h : Ticks w (run.before n) c t s') :
    Stretch w (n + 1) where
  before j := if j ≤ n then run.before j else s'
  chosen j := if j < n then run.chosen j else c
  acted j := if j < n then run.acted j else t
  ticks := by
    intro j hj
    by_cases hlt : j < n
    · rw [if_pos (Nat.le_of_lt hlt), if_pos hlt, if_pos hlt, if_pos (Nat.succ_le_of_lt hlt)]
      exact run.ticks j hlt
    · obtain rfl : j = n := by omega
      rw [if_pos (Nat.le_refl j), if_neg hlt, if_neg hlt, if_neg (by omega)]
      exact h

/-- Ticks from the same scene go through the same scenes. -/
theorem before_eq {m : Nat} (run : Stretch w n) (run' : Stretch w m)
    (h : run.before 0 = run'.before 0) :
    ∀ j, j ≤ n → j ≤ m → run.before j = run'.before j := by
  intro j
  induction j with
  | zero => exact fun _ _ => h
  | succ j ih =>
    intro hn hm
    have hrun := parallelTick_ok_iff.mpr ⟨_, _, run.ticks j hn⟩
    have hrun' := parallelTick_ok_iff.mpr ⟨_, _, run'.ticks j hm⟩
    rw [ih (by omega) (by omega), hrun'] at hrun
    exact (EStateM.Result.ok.inj hrun).2.symm

/-- What the dot with number `i` prints in its turn of tick `j`. -/
def printedAt (run : Stretch w n) (i j : Nat) : List String :=
  match run.number i j with
  | some k =>
    (sceneOf (actAll w k (run.chosen j))).console.since
      (sceneOf (actAll w (k + 1) (run.chosen j))).console
  | none => []

/-- What the dot with number `i` prints in all its turns. -/
def printed (run : Stretch w n) (i : Nat) : List String :=
  (List.range n).flatMap (run.printedAt i)

variable {run : Stretch w n} {i j : Nat} {d e o : Dot} {x : Cell} {out : List String}

/-- A dot prints what its deed prints. -/
theorem Has.printedAt_eq (h : run.Has i j d) (hj : j < n) (hchosen : d.chosen w = .ok e)
    (hphase : ∀ m, e.phase ≠ .meet m) (hx : w.cell? e.pos = some x)
    (hdeed : (e.deed w x).Prints out o) : run.printedAt i j = out := by
  obtain ⟨k, hnumber, hd⟩ := h
  have htick := run.ticks j hj
  have hk := (List.getElem?_eq_some_iff.mp hd).1
  obtain ⟨e₁, he, he₁⟩ := exists_chosen htick.choosing hd
  obtain rfl : e = e₁ := Except.ok.inj (hchosen.symm.trans he₁)
  obtain ⟨u, u', hu, hturn, hdot⟩ := htick.turn he hphase
  have hu' : actAll w (k + 1) (run.chosen j) = .ok () u' := actAll_succ_ok.mpr ⟨u, hu, hturn⟩
  unfold printedAt
  rw [hnumber]
  simp only [hu, hu', sceneOf]
  exact Console.since_eq (Turn.outputs_of_act hturn hdot hx hdeed)

end Stretch

/-- In the next `n` ticks from the scene `s`, nothing stops the run but perhaps the dot
    with number `i`. -/
def Undisturbed (w : World) (s : Scene) (i n : Nat) : Prop :=
  ∀ j, j < n → ∀ run : Stretch w j, run.before 0 = s →
    ∀ k, run.number i j = some k → OthersGoOn w (run.before j) k

/-- Nobody disturbs in ticks that complete. -/
theorem Stretch.undisturbed {w : World} {n : Nat} (run : Stretch w n) (i : Nat) :
    Undisturbed w (run.before 0) i n := by
  intro j hj run' hstart k _
  rw [run'.before_eq run hstart j (Nat.le_refl j) (by omega)]
  exact .of_ticks (run.ticks j hj) k

end Machine

/-! ## Rows of characters -/

/-- In the phase `p`, on a cell with the character `g`, a dot prints the texts `out` and
    goes on in the phase `q`.  In neither phase does it mind a blank. -/
def Phase.PrintsOn (g : Char) (p q : Phase) (out : List String) : Prop :=
  q.isPrinting = true ∧ ∀ (w : World) (d : Dot) (c : Cell), d.phase = p → c.glyph = g →
    ∃ r : Phase, d.choose c = .ok r ∧ r.isPrinting = true ∧
      (Dot.deed w { d with phase := r } c).Prints out { d with phase := q }.move

/-- From the phase `p` a dot goes through the characters to the phase `q`, and prints
    the texts of `outs` at each of them. -/
inductive Phase.PrintsAlong : Phase → List Char → List (List String) → Phase → Prop where
  | nil (p : Phase) : PrintsAlong p [] [] p
  | cons {g : Char} {p q r : Phase} {out : List String} {gs : List Char}
      {outs : List (List String)} : PrintsOn g p q out → PrintsAlong q gs outs r →
      PrintsAlong p (g :: gs) (out :: outs) r

/-- The characters stand in the cells from `p` on, one after the other. -/
def World.ShowsRow (w : World) (p dir : Pos) (gs : List Char) : Prop :=
  ∀ (k : Nat) (g : Char), gs[k]? = some g → w.hasGlyph (p.along dir k) g = true

namespace Phase

variable {p q r : Phase} {g : Char} {gs gs' : List Char} {out : List String}
  {outs outs' : List (List String)}

theorem PrintsAlong.append (h : p.PrintsAlong gs outs q) (h' : q.PrintsAlong gs' outs' r) :
    p.PrintsAlong (gs ++ gs') (outs ++ outs') r := by
  induction h with
  | nil => exact h'
  | cons hon _ ih => exact .cons hon (ih h')

theorem PrintsAlong.single (h : PrintsOn g p q out) : p.PrintsAlong [g] [out] q :=
  .cons h (.nil q)

theorem PrintsAlong.length_eq (h : p.PrintsAlong gs outs q) : outs.length = gs.length := by
  induction h with
  | nil => rfl
  | cons _ _ ih => rw [List.length_cons, List.length_cons, ih]

/-- The next character of a row. -/
theorem PrintsAlong.next {k : Nat} (hk : k < gs.length)
    (h : p.PrintsAlong (gs.drop k) (outs.drop k) r) :
    ∃ q out, PrintsOn gs[k] p q out ∧ outs[k]? = some out ∧
      q.PrintsAlong (gs.drop (k + 1)) (outs.drop (k + 1)) r := by
  rw [List.drop_eq_getElem_cons hk] at h
  generalize houts : outs.drop k = rest at h
  cases h with
  | @cons _ _ q _ out _ outs' hon hrest =>
    have hget : outs[k]? = some out := by
      have hhead : (outs.drop k)[0]? = outs[k]? := List.getElem?_drop
      rw [houts] at hhead
      exact hhead.symm
    have htail : outs.drop (k + 1) = outs' := by
      rw [← List.drop_drop, houts]
      rfl
    exact ⟨q, out, hon, hget, htail ▸ hrest⟩

/-- A dot that prints on a character chooses a phase in which it prints, and its deed prints. -/
theorem PrintsOn.turn {w : World} {d : Dot} (h : PrintsOn g p q out) (hphase : d.phase = p)
    (hglyph : w.hasGlyph d.pos g = true) :
    ∃ e c, d.chosen w = .ok e ∧ (∀ m, e.phase ≠ .meet m) ∧ w.cell? e.pos = some c ∧
      (e.deed w c).Prints out { d with phase := q }.move := by
  obtain ⟨c, hc, hg⟩ := World.exists_of_hasGlyph hglyph
  obtain ⟨r, hchoose, hprinting, hdeed⟩ := h.2 w d c hphase hg
  refine ⟨{ d with phase := r }, c, ?_, ?_, hc, hdeed⟩
  · simp [Dot.chosen, hc, hchoose, hprinting, Except.map]
  · intro m hm
    obtain rfl : r = .meet m := hm
    cases hprinting

end Phase

namespace Machine

variable {w : World} {s : Scene} {n i : Nat} {x : Dot} {gs : List Char}
  {outs : List (List String)} {q : Phase}

/-- In each tick, a dot that prints along a row stands on the next character, and is in
    the phase for the rest of the row. -/
theorem Stretch.Has.printsAlong {run : Stretch w n} (h : run.Has i 0 x)
    (hshows : w.ShowsRow x.pos x.dir gs) (hprints : x.phase.PrintsAlong gs outs q) :
    ∀ k, k < gs.length → k ≤ n → ∃ p : Phase,
      run.Has i k { x with pos := x.pos.along x.dir k, phase := p } ∧
        p.PrintsAlong (gs.drop k) (outs.drop k) q := by
  intro k
  induction k with
  | zero =>
    intro _ _
    refine ⟨x.phase, ?_, hprints⟩
    have hplace : x.pos.along x.dir (0 : Nat) = x.pos := Pos.along_zero _ _
    rw [hplace]
    exact h
  | succ k ih =>
    intro hk hn
    obtain ⟨p, hhas, hrest⟩ := ih (by omega) (by omega)
    obtain ⟨p', out, hon, -, hrest'⟩ := hrest.next (by omega)
    have hglyph := hshows k _ (List.getElem?_eq_getElem (by omega))
    obtain ⟨e, c, hchosen, hphase, hc, hdeed⟩ := hon.turn (d := { x with
      pos := x.pos.along x.dir k, phase := p }) rfl hglyph
    obtain ⟨o, new, hleads, hmakes⟩ := hhas.tick (by omega) hchosen hphase hc
    rw [hdeed.leads hleads] at hmakes
    refine ⟨p', ?_, hrest'⟩
    -- Blank or not, the next character is there, and the dot is printing.
    obtain ⟨c', hc', -⟩ := World.exists_of_hasGlyph
      (hshows (k + 1) _ (List.getElem?_eq_getElem hk))
    have hplace : x.pos.along x.dir k + x.dir = x.pos.along x.dir (k + 1 : Nat) :=
      Pos.along_add _ _ _
    have hmove : Dot.move { x with pos := x.pos.along x.dir k, phase := p' } =
        { x with pos := x.pos.along x.dir (k + 1 : Nat), phase := p' } := by
      simp only [Dot.move, hplace]
    rw [hmove] at hmakes
    have hprinting := hon.1
    apply hmakes.has
    · cases p' <;> first | rfl | cases hprinting
    · simp only [Turn.isLost, hc', hprinting, Bool.not_true, Bool.and_false]

/-- In each tick the dot has a deed that prints what belongs to the character on which
    it stands. -/
theorem Stretch.Has.printsOn {run : Stretch w n} (h : run.Has i 0 x)
    (hshows : w.ShowsRow x.pos x.dir gs) (hprints : x.phase.PrintsAlong gs outs q) {k : Nat}
    (hk : k < gs.length) (hn : k ≤ n) :
    ∃ (d e o : Dot) (c : Cell) (out : List String), run.Has i k d ∧
      d.pos = x.pos.along x.dir k ∧ outs[k]? = some out ∧ d.chosen w = .ok e ∧
      (∀ m, e.phase ≠ .meet m) ∧ w.cell? e.pos = some c ∧ (e.deed w c).Prints out o := by
  obtain ⟨p, hhas, hrest⟩ := h.printsAlong hshows hprints k hk hn
  obtain ⟨p', out, hon, hout, -⟩ := hrest.next hk
  obtain ⟨e, c, hchosen, hphase, hc, hdeed⟩ := hon.turn (d := { x with
    pos := x.pos.along x.dir k, phase := p }) rfl (hshows k _ (List.getElem?_eq_getElem hk))
  exact ⟨_, e, _, c, out, hhas, rfl, hout, hchosen, hphase, hc, hdeed⟩

/-- If nothing else stops the run, it goes on to the end of the row. -/
theorem exists_stretch_along (hx : s.dots[i]? = some x) (hshows : w.ShowsRow x.pos x.dir gs)
    (hprints : x.phase.PrintsAlong gs outs q) (hothers : Undisturbed w s i gs.length) :
    ∀ j, j ≤ gs.length → ∃ run : Stretch w j, run.before 0 = s := by
  intro j
  -- Tick after tick: the dot has got so far, and it does not stop the next tick.
  induction j with
  | zero => exact fun _ => ⟨⟨fun _ => s, fun _ => s, fun _ => s, nofun⟩, rfl⟩
  | succ j ih =>
    intro hj
    obtain ⟨run, hstart⟩ := ih (by omega)
    have hhas : run.Has i 0 x := ⟨i, rfl, hstart ▸ hx⟩
    obtain ⟨d, e, o, c, out, ⟨k, hnumber, hd⟩, -, -, hchosen, hphase, hc, hdeed⟩ :=
      hhas.printsOn hshows hprints hj (Nat.le_refl j)
    obtain ⟨c', t, s', htick⟩ :=
      (hothers j hj run hstart k hnumber).ticks hd hchosen hphase hc hdeed
    exact ⟨run.extend htick, hstart⟩

/-- What the dot prints on its way is what belongs to the row. -/
theorem Stretch.Has.printed_eq {run : Stretch w gs.length} (h : run.Has i 0 x)
    (hshows : w.ShowsRow x.pos x.dir gs) (hprints : x.phase.PrintsAlong gs outs q) :
    run.printed i = outs.flatten := by
  have houts : outs = (List.range gs.length).map (run.printedAt i) := by
    apply List.ext_getElem?
    intro k
    by_cases hk : k < gs.length
    · obtain ⟨d, e, o, c, out, hhas, -, hout, hchosen, hphase, hc, hdeed⟩ :=
        h.printsOn hshows hprints hk (Nat.le_of_lt hk)
      rw [hout, ← hhas.printedAt_eq hk hchosen hphase hc hdeed, List.getElem?_map,
        List.getElem?_range hk]
      rfl
    · rw [List.getElem?_eq_none (by rw [hprints.length_eq]; omega),
        List.getElem?_eq_none (by simpa using hk)]
  unfold Stretch.printed
  rw [houts, List.flatMap_def]

/-- A dot that prints along a row of characters gets through it, if nothing else stops the
    run, and prints what belongs to the row and nothing else. -/
theorem prints_along (hx : s.dots[i]? = some x) (hshows : w.ShowsRow x.pos x.dir gs)
    (hprints : x.phase.PrintsAlong gs outs q) (hothers : Undisturbed w s i gs.length) :
    (∃ run : Stretch w gs.length, run.before 0 = s) ∧
      ∀ run : Stretch w gs.length, run.before 0 = s →
        (∀ k, k < gs.length → ∃ y, run.Has i k y ∧ y.pos = x.pos.along x.dir k) ∧
        run.printed i = outs.flatten := by
  refine ⟨exists_stretch_along hx hshows hprints hothers _ (Nat.le_refl _), ?_⟩
  intro run hstart
  have hhas : run.Has i 0 x := ⟨i, rfl, hstart ▸ hx⟩
  refine ⟨?_, hhas.printed_eq hshows hprints⟩
  intro k hk
  obtain ⟨d, _, _, _, _, hd, hpos, -⟩ := hhas.printsOn hshows hprints hk (Nat.le_of_lt hk)
  exact ⟨d, hd, hpos⟩

end Machine

end DotPaths
