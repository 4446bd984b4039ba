import DotPaths.Proofs.Lists
import DotPaths.Proofs.Order
import DotPaths.Proofs.SymbolicTurns

/-! # Symbolic runs

    A run can be tried out with numbers that stand in for the real ones.  The
    symbolic run is computed from the dots alone, without a console, and writes down
    what is asked about the numbers; if every question has the same answer for the
    real ones, the real run goes as the symbolic one.

    - `Conforms`: an action prints what was to be printed, and then its dots are
      modelled by the symbolic ones; or it stops at the first number that has no text.
    - `act_conforms`, `tick_conforms`, `loop_conforms`: turns, ticks and runs go so.
-/

namespace DotPaths

/-! ## Printing -/

namespace Console

/-- The console takes whatever is printed, and shows nothing between two ticks. -/
structure Takes (c : Console) : Prop where
  calm : c.IsCalm
  unlimited : c.outputsLeft = none
  serves : c.service ≠ .bare

/-- The console has taken these texts, and will take more. -/
structure Took (c : Console) (texts : List String) (c' : Console) : Prop where
  takes : c'.Takes
  outputs : c'.outputs = texts.reverse ++ c.outputs

variable {c c' c'' : Console} {texts texts' : List String}

theorem Takes.refl (h : c.Takes) : c.Took [] c :=
  ⟨h, rfl⟩

theorem Took.trans (h : c.Took texts c') (h' : c'.Took texts' c'') :
    c.Took (texts ++ texts') c'' where
  takes := h'.takes
  outputs := by rw [h'.outputs, h.outputs, List.reverse_append, List.append_assoc]

theorem Takes.tick (h : c.Takes) (w : World) (dots : List Pos) :
    ∃ c', Console.tick w dots c = .ok () c' ∧ c.Took [] c' := by
  obtain ⟨n, hn⟩ : ∃ n, Console.tick w dots c = .ok () { c with ticks := n } := tick_calm h.calm
  exact ⟨_, hn, ⟨h.calm, h.unlimited, h.serves⟩, rfl⟩

theorem Takes.output (h : c.Takes) (text : String) :
    ∃ c', Console.output (.text text) c = .ok () c' ∧ c.Took [text] c' := by
  have houtputs : (CodeText.ofString text :: c.texts).map CodeText.shown =
      [text].reverse ++ c.outputs := by
    simp [outputs]
  obtain ⟨service, input, keys, typed, ticksLeft, outputsLeft, events, texts, reports, ticks, log,
    padRow, padColumn⟩ := c
  obtain rfl : outputsLeft = none := h.unlimited
  cases service with
  | bare => exact absurd rfl h.serves
  | recorder => exact ⟨_, rfl, ⟨h.calm, rfl, h.serves⟩, houtputs⟩
  | terminal d =>
    obtain ⟨view, silent, columns, lines, viewLines, autostep, interactive⟩ := d
    obtain rfl : view = .off := h.calm.2 _ rfl
    cases silent with
    | true => exact ⟨_, rfl, ⟨h.calm, rfl, h.serves⟩, houtputs⟩
    | false =>
      have hwrite := write_of_encodable (CodeText.isEncodable_ofString text)
      exact ⟨_, hwrite _, ⟨h.calm, rfl, h.serves⟩, houtputs⟩

theorem Takes.finish (h : c.Takes) :
    ∃ c', Console.finish c = .ok () c' := by
  obtain ⟨service, input, keys, typed, ticksLeft, outputsLeft, events, texts, reports, ticks, log,
    padRow, padColumn⟩ := c
  cases service with
  | bare => exact absurd rfl h.serves
  | recorder => exact ⟨_, rfl⟩
  | terminal d =>
    obtain ⟨view, silent, columns, lines, viewLines, autostep, interactive⟩ := d
    obtain rfl : view = .off := h.calm.2 _ rfl
    exact ⟨_, rfl⟩

end Console

namespace Symbolic

open Scene

/-- A line in front of others; if it has no text, this is the end. -/
def addLine (text : Except ArithFault String) (rest : List String × Option ArithFault) :
    List String × Option ArithFault :=
  match text with
  | .ok text => ((text ++ "\n") :: rest.1, rest.2)
  | .error f => ([], some f)

/-- The lines that come of printing these numbers, up to the first that has no
    text, and what is wrong with that one. -/
def lines (ns : List Int) : List String × Option ArithFault :=
  ns.foldr (fun n => addLine (Number.int n).text) ([], none)

theorem lines_cons_ok {n : Int} {text : String} (h : (Number.int n).text = .ok text)
    (ns : List Int) : lines (n :: ns) = ((text ++ "\n") :: (lines ns).1, (lines ns).2) := by
  unfold lines
  rw [List.foldr_cons, h]
  rfl

theorem lines_cons_error {n : Int} {f : ArithFault} (h : (Number.int n).text = .error f)
    (ns : List Int) : lines (n :: ns) = ([], some f) := by
  unfold lines
  rw [List.foldr_cons, h]
  rfl

theorem lines_append {ns : List Int} (h : (lines ns).2 = none) (ns' : List Int) :
    lines (ns ++ ns') = ((lines ns).1 ++ (lines ns').1, (lines ns').2) := by
  induction ns with
  | nil => rfl
  | cons n ns ih =>
    cases htext : (Number.int n).text with
    | error f =>
      rw [lines_cons_error htext] at h
      cases h
    | ok text =>
      rw [lines_cons_ok htext] at h
      rw [List.cons_append, lines_cons_ok htext, lines_cons_ok htext, ih h]
      rfl

theorem lines_append_of_fault {ns : List Int} {f : ArithFault} (h : (lines ns).2 = some f)
    (ns' : List Int) : lines (ns ++ ns') = lines ns := by
  induction ns with
  | nil => cases h
  | cons n ns ih =>
    rw [List.cons_append]
    cases htext : (Number.int n).text with
    | error f => rw [lines_cons_error htext, lines_cons_error htext]
    | ok text =>
      rw [lines_cons_ok htext] at h
      rw [lines_cons_ok htext, lines_cons_ok htext, ih h]

/-- The line for a number. -/
def line (n : Int) : String := String.ofList (Integer.decimal n) ++ "\n"

theorem text_int (n : Int) : (Number.int n).text =
    if Integer.isTooLong n then .error .tooManyDigits
    else .ok (String.ofList (Integer.decimal n)) := rfl

theorem text_of_short {n : Int} (h : Integer.isTooLong n = false) :
    (Number.int n).text = .ok (String.ofList (Integer.decimal n)) := by
  rw [text_int, if_neg (by simp [h])]

theorem text_of_long {n : Int} (h : Integer.isTooLong n = true) :
    (Number.int n).text = .error .tooManyDigits := by
  rw [text_int, if_pos h]

theorem lines_of_short {ns : List Int} (h : ∀ n ∈ ns, Integer.isTooLong n = false) :
    lines ns = (ns.map line, none) := by
  induction ns with
  | nil => rfl
  | cons n ns ih =>
    have hrest : lines ns = (ns.map line, none) := ih fun k hk => h k (by simp [hk])
    rw [lines_cons_ok (text_of_short (h n (by simp))), hrest]
    rfl

theorem lines_of_long {ns : List Int} {n : Int} (h : ∀ k ∈ ns, Integer.isTooLong k = false)
    (hn : Integer.isTooLong n = true) (rest : List Int) :
    lines (ns ++ n :: rest) = (ns.map line, some .tooManyDigits) := by
  have hshort := lines_of_short h
  rw [lines_append (by rw [hshort]), lines_cons_error (text_of_long hn), hshort, List.append_nil]

/-- An action of the run conforms to the symbolic one.  It prints the numbers, and then
    its dots are modelled by the symbolic ones; or it stops at the first number that
    has no text. -/
def Conforms (ρ : Int → Int) (ns : List Int) (dots : List Dot) (c : Console) :
    EStateM.Result Stop Scene Unit → Prop
  | .ok _ s =>
    (lines ns).2 = none ∧ List.Forall₂ (Dot.Models ρ) dots s.dots ∧ c.Took (lines ns).1 s.console
  | .error why s =>
    ∃ f, (lines ns).2 = some f ∧ why = .fault (.arith f) ∧ c.Took (lines ns).1 s.console

theorem Conforms.bind {ρ : Int → Int} {ns ns' : List Int} {dots dots' : List Dot} {a b : Act Unit}
    {s : Scene} (h : Conforms ρ ns dots s.console (a s))
    (hb : ∀ t : Scene, List.Forall₂ (Dot.Models ρ) dots t.dots → t.console.Takes →
      Conforms ρ ns' dots' t.console (b t)) :
    Conforms ρ (ns ++ ns') dots' s.console ((a >>= fun _ => b) s) := by
  cases ha : a s with
  | error why t =>
    rw [ha] at h
    obtain ⟨f, hf, hwhy, htook⟩ := h
    -- What comes after a fault is not printed.
    rw [bind_of_error ha]
    refine ⟨f, ?_, hwhy, ?_⟩
    · rw [lines_append_of_fault hf]
      exact hf
    · rw [lines_append_of_fault hf]
      exact htook
  | ok x t =>
    rw [ha] at h
    obtain ⟨hnone, hdots, htook⟩ := h
    -- All has been printed so far, and the rest goes on from there.
    have hconf := hb t hdots htook.takes
    rw [bind_of_ok ha]
    cases hbt : b t with
    | error why u =>
      rw [hbt] at hconf
      obtain ⟨f, hf, hwhy, htook'⟩ := hconf
      refine ⟨f, ?_, hwhy, ?_⟩
      · rw [lines_append hnone]
        exact hf
      · rw [lines_append hnone]
        exact htook.trans htook'
    | ok y u =>
      rw [hbt] at hconf
      obtain ⟨hnone', hdots', htook'⟩ := hconf
      refine ⟨?_, hdots', ?_⟩
      · rw [lines_append hnone]
        exact hnone'
      · rw [lines_append hnone]
        exact htook.trans htook'

/-- An action that only changes the dots. -/
theorem conforms_silently {ρ : Int → Int} {dots dots' : List Dot} {s : Scene} (h : s.console.Takes)
    (hdots : List.Forall₂ (Dot.Models ρ) dots dots') :
    Conforms ρ [] dots s.console (.ok () { s with dots := dots' }) :=
  ⟨rfl, hdots, h.refl⟩

/-! ## Turns -/

/-- The turn of the dot with number `i`. -/
def act (w : World) (i : Nat) (dots : List Dot) : Option (List Dot × List Query) :=
  dots[i]?.bind fun d =>
    match w.cell? d.pos with
    | none => some (dots.set i d.die, [])
    | some c =>
      match d.phase with
      | .meet m => meet w c i d m dots
      | _ =>
        (asks d c).bind fun qs =>
          (d.deed w c).lead?.map fun (d', new) => ((dots ++ new).set i (d'.settled w), qs)

/-- The turns of the dots with these numbers. -/
def actAll (w : World) : List Nat → List Dot → Option (List Dot × List Query)
  | [], dots => some (dots, [])
  | i :: is, dots =>
    (act w i dots).bind fun (dots, qs) => (actAll w is dots).map fun (dots, qs') => (dots, qs ++ qs')

variable {ρ : Int → Int} {w : World} {c : Cell} {i : Nat} {d e : Dot} {dots dots' : List Dot}
  {qs : List Query} {s : Scene}

/-- A deed that stops the run is the end of its turn. -/
theorem act_of_stop {why : Stop} (he : s.dots[i]? = some e) (hc : w.cell? e.pos = some c)
    (hdeed : e.deed w c = .stop d why) :
    Turn.act w i s = .error why { s with dots := s.dots.set i d } := by
  have hp : Turn.perform c i (e.deed w c) s = .error why { s with dots := s.dots.set i d } := by
    rw [hdeed]
    rfl
  unfold Turn.act
  rw [bind_of_ok (dotAt_apply he)]
  simp only [hc]
  exact bind_of_error hp

theorem deed_conforms {lead : Dot × List Dot} {ns : List Int} (htakes : s.console.Takes)
    (hdots : List.Forall₂ (Dot.Models ρ) dots s.dots) (he : s.dots[i]? = some e)
    (hc : w.cell? e.pos = some c) (h : Deed.Models ρ lead ns (e.deed w c)) :
    Conforms ρ ns ((dots ++ lead.2).set i (lead.1.settled w)) s.console (Turn.act w i s) := by
  have hi := (List.getElem?_eq_some_iff.mp he).1
  generalize hdeed : e.deed w c = deed at h
  cases h with
  | @become d' e' hmodels =>
    have hp : Turn.perform c i (e.deed w c) s = .ok () { s with dots := s.dots.set i e' } := by
      rw [hdeed]
      rfl
    rw [Turn.act_of_perform he hc hp (List.getElem?_set_self hi), List.append_nil]
    apply conforms_silently htakes
    rw [List.set_set]
    exact forall₂_set hdots i (hmodels.settled w)
  | @branch d' e' new new' hmodels hnew =>
    have hp : Turn.perform c i (e.deed w c) s =
        .ok () { s with dots := (s.dots ++ new').set i e' } := by
      rw [hdeed]
      rfl
    have hlt : i < (s.dots ++ new').length := by
      rw [List.length_append]
      omega
    rw [Turn.act_of_perform he hc hp (List.getElem?_set_self hlt)]
    apply conforms_silently htakes
    rw [List.set_set]
    exact forall₂_set (List.rel_append hdots hnew) i (hmodels.settled w)
  | @print d' e' before n text hmodels htext =>
    obtain ⟨console, hconsole, htook⟩ := htakes.output (text ++ "\n")
    have hout : onConsole (Console.output (.text (text ++ "\n" : String)))
        { s with dots := s.dots.set i before } =
          .ok () { s with dots := s.dots.set i before, console := console } := by
      unfold onConsole
      rw [hconsole]
    have hp : Turn.perform c i (e.deed w c) s =
        .ok () { s with dots := s.dots.set i e', console := console } := by
      rw [hdeed, ← List.set_set before]
      show (onConsole _ >>= fun _ => setDot i e') { s with dots := s.dots.set i before } = _
      rw [bind_of_ok hout]
      rfl
    rw [Turn.act_of_perform he hc hp (List.getElem?_set_self hi), List.append_nil]
    refine ⟨?_, ?_, ?_⟩
    · rw [lines_cons_ok htext]
      rfl
    · show List.Forall₂ _ _ ((s.dots.set i e').set i _)
      rw [List.set_set]
      exact forall₂_set hdots i (hmodels.settled w)
    · rw [lines_cons_ok htext]
      exact htook
  | @wordless d' e' n f htext =>
    -- The run stops here, wherever the symbolic run has gone on to.
    rw [act_of_stop he hc hdeed]
    refine ⟨f, ?_, rfl, ?_⟩
    · rw [lines_cons_error htext]
    · rw [lines_cons_error htext]
      exact htakes.refl

theorem meet_conforms {m : Meeting} (htakes : s.console.Takes)
    (hdots : List.Forall₂ (Dot.Models ρ) dots s.dots) (he : s.dots[i]? = some e)
    (h : d.Models ρ e) (hc : w.cell? e.pos = some c) (hphase : e.phase = .meet m)
    (hmeet : meet w c i d m dots = some (dots', qs))
    (hholds : ∀ q ∈ qs, q.Holds ρ) :
    Conforms ρ (printed ρ qs) dots' s.console (Turn.act w i s) := by
  have hi := (List.getElem?_eq_some_iff.mp he).1
  have hdeed : e.deed w c = .meet m := by simp [Dot.deed, hphase]
  unfold meet at hmeet
  cases hpartner : partner? i d m dots with
  | none =>
    simp only [hpartner] at hmeet
    cases hmeet
    -- Who is oldest depends on places and phases alone, so nobody is met here either.
    have hwait : m.master = true → Meeting.oldest? e.pos true s.dots = some i →
        Meeting.oldest? e.pos false s.dots = none := by
      intro hmaster hfirst
      rw [oldest?_eq hdots, h.pos] at hfirst ⊢
      simpa [partner?, hmaster, hfirst] using hpartner
    have hp : Turn.perform c i (e.deed w c) s =
        .ok () { s with dots := s.dots.set i (e.waitOn m) } := by
      rw [hdeed]
      exact Turn.perform_wait he hwait
    rw [Turn.act_of_perform he hc hp (List.getElem?_set_self hi)]
    apply conforms_silently htakes
    rw [List.set_set]
    exact forall₂_set hdots i ((h.waitOn m).settled w)
  | some j =>
    simp only [hpartner] at hmeet
    obtain ⟨o, ho, hmeet⟩ := Option.bind_eq_some_iff.mp hmeet
    obtain ⟨⟨r, qs'⟩, hr, hpair⟩ := Option.map_eq_some_iff.mp hmeet
    cases hpair
    obtain ⟨o', ho', hmodels⟩ := forall₂_getElem? hdots ho
    obtain ⟨r', hr', hr'models, hsilent⟩ := outcome_sound h hmodels hr hholds
    obtain ⟨hmaster, hfirst, hother⟩ : m.master = true ∧
        Meeting.oldest? d.pos true dots = some i ∧ Meeting.oldest? d.pos false dots = some j := by
      unfold partner? at hpartner
      split at hpartner
      · next hmeets =>
        simp only [Bool.and_eq_true, beq_iff_eq] at hmeets
        exact ⟨hmeets.1, hmeets.2, hpartner⟩
      · cases hpartner
    rw [← oldest?_eq hdots, ← h.pos] at hfirst hother
    have hp : Turn.perform c i (e.deed w c) s = .ok () { s with
        dots := (s.dots.set j o'.die).set i { r' with phase := .travel }.move } := by
      rw [hdeed]
      exact Turn.perform_meet he hmaster hfirst hother ho' hr'
    rw [Turn.act_of_perform he hc hp (List.getElem?_set_self (by simpa using hi)), hsilent]
    apply conforms_silently htakes
    rw [List.set_set]
    exact forall₂_set (forall₂_set hdots j (hmodels.rephase .dead)) i
      ((hr'models.rephase .travel).move.settled w)

theorem act_conforms (htakes : s.console.Takes) (hdots : List.Forall₂ (Dot.Models ρ) dots s.dots)
    (hact : act w i dots = some (dots', qs)) (hholds : ∀ q ∈ qs, q.Holds ρ) :
    Conforms ρ (printed ρ qs) dots' s.console (Turn.act w i s) := by
  unfold act at hact
  obtain ⟨d, hd, hact⟩ := Option.bind_eq_some_iff.mp hact
  obtain ⟨e, he, h⟩ := forall₂_getElem? hdots hd
  cases hc : w.cell? d.pos with
  | none =>
    simp only [hc] at hact
    cases hact
    rw [Turn.act_outside he (by rw [h.pos, hc])]
    exact conforms_silently htakes (forall₂_set hdots i (h.rephase .dead))
  | some c =>
    have hcell : w.cell? e.pos = some c := by rw [h.pos, hc]
    simp only [hc] at hact
    split at hact
    · next m hphase =>
      exact meet_conforms htakes hdots he h hcell (by rw [h.phase, hphase]) hact hholds
    · obtain ⟨qs', hasks, hact⟩ := Option.bind_eq_some_iff.mp hact
      obtain ⟨lead, hlead, hpair⟩ := Option.map_eq_some_iff.mp hact
      cases hpair
      exact deed_conforms htakes hdots he hcell (deed_models h hasks hholds hlead)

theorem actAll_conforms {is : List Nat} (htakes : s.console.Takes)
    (hdots : List.Forall₂ (Dot.Models ρ) dots s.dots)
    (hact : actAll w is dots = some (dots', qs)) (hholds : ∀ q ∈ qs, q.Holds ρ) :
    Conforms ρ (printed ρ qs) dots' s.console (is.forM (Turn.act w) s) := by
  induction is generalizing dots qs s with
  | nil =>
    cases hact
    exact conforms_silently htakes hdots
  | cons i is ih =>
    unfold actAll at hact
    obtain ⟨⟨dots₁, qs₁⟩, hfirst, hact⟩ := Option.bind_eq_some_iff.mp hact
    obtain ⟨⟨dots₂, qs₂⟩, hrest, hpair⟩ := Option.map_eq_some_iff.mp hact
    cases hpair
    simp only [List.forM_eq_forM, List.forM_cons, printed_append] at ih ⊢
    refine (act_conforms htakes hdots hfirst ?_).bind ?_
    · intro q hq
      exact hholds q (by simp [hq])
    · intro t ht htakes'
      apply ih htakes' ht hrest
      intro q hq
      exact hholds q (by simp [hq])

/-! ## Ticks -/

/-- A tick: all dots choose, all act, and the dead ones are taken away. -/
def tick (w : World) (dots : List Dot) : Option (List Dot × List Query) :=
  (chooseAll w dots).bind fun chosen =>
    (actAll w (List.range dots.length) chosen).map fun (after, qs) =>
      (Machine.sweep dots.length after, qs)

theorem sweep_models {actual : List Dot} (n : Nat) (h : List.Forall₂ (Dot.Models ρ) dots actual) :
    List.Forall₂ (Dot.Models ρ) (Machine.sweep n dots) (Machine.sweep n actual) := by
  have hkeep : ∀ d e : Dot, d.Models ρ e → ((!d.isDead) = true ↔ (!e.isDead) = true) := by
    intro d e hde
    rw [Dot.isDead, Dot.isDead, hde.phase]
  exact List.rel_append (List.rel_filter hkeep (List.forall₂_take n h)) (List.forall₂_drop n h)

theorem closing_conforms (htakes : s.console.Takes)
    (hdots : List.Forall₂ (Dot.Models ρ) dots s.dots) :
    Conforms ρ [] dots s.console (Scene.tick w s) := by
  obtain ⟨s', hsame, hconsole, htick⟩ := Scene.tick_eq w s
  obtain ⟨console, hok, htook⟩ := htakes.tick w (Scene.positions s.dots)
  rw [htick, onConsole, hconsole, hok]
  refine ⟨rfl, ?_, htook⟩
  rw [hsame]
  exact hdots

theorem tick_conforms (htakes : s.console.Takes) (hdots : List.Forall₂ (Dot.Models ρ) dots s.dots)
    (htick : tick w dots = some (dots', qs)) (hholds : ∀ q ∈ qs, q.Holds ρ) :
    Conforms ρ (printed ρ qs) dots' s.console (Machine.parallelTick w s) := by
  unfold tick at htick
  obtain ⟨chosen, hchoose, htick⟩ := Option.bind_eq_some_iff.mp htick
  obtain ⟨⟨after, qs'⟩, hact, hpair⟩ := Option.map_eq_some_iff.mp htick
  cases hpair
  obtain ⟨ready, hready, hmodels⟩ := chooseAll_sound choose_sound hchoose hdots
  have hchosen : Machine.chooseAll w s.dots.length s = .ok () { s with dots := ready } :=
    Machine.chooseAll_ok_iff.mpr ⟨hready, rfl⟩
  -- After the choosing the turns conform, and the closing of the tick prints nothing.
  have hparts : Machine.parallelTick w s = (Machine.actAll w dots.length >>= fun _ =>
      modify (fun s : Scene => { s with dots := Machine.sweep dots.length s.dots }) >>= fun _ =>
        Scene.tick w) { s with dots := ready } := by
    rw [hdots.length_eq]
    exact bind_of_ok hchosen
  rw [hparts]
  have hconf : Conforms ρ (printed ρ qs) after s.console
      (Machine.actAll w dots.length { s with dots := ready }) :=
    actAll_conforms (s := { s with dots := ready }) htakes hmodels hact hholds
  rw [← List.append_nil (printed ρ qs)]
  refine Conforms.bind (s := { s with dots := ready }) hconf ?_
  intro t ht htakes'
  exact closing_conforms (s := { t with dots := Machine.sweep dots.length t.dots }) htakes'
    (sweep_models _ ht)

end Symbolic

/-! ## Runs

    A computation puts off what it can.  Over many ticks that becomes too much, so
    the dots are worked out after each of them. -/

/-- Values that can be worked out before they are used. -/
class Workable (α : Type) where
  workOut : {β : Type} → α → (α → β) → β
  workOut_eq : ∀ {β : Type} (a : α) (k : α → β), workOut a k = k a

open Workable (workOut workOut_eq)

instance : Workable Bool where
  workOut
    | true, k => k true
    | false, k => k false
  workOut_eq b k := by cases b <;> rfl

instance : Workable Nat where
  workOut
    | 0, k => k 0
    | n + 1, k => k (n + 1)
  workOut_eq n k := by cases n <;> rfl

instance : Workable Int where
  workOut
    | .ofNat n, k => workOut n fun n => k (.ofNat n)
    | .negSucc n, k => workOut n fun n => k (.negSucc n)
  workOut_eq n k := by cases n <;> simp [workOut_eq]

instance : Workable Pos where
  workOut
    | ⟨x, y⟩, k => workOut x fun x => workOut y fun y => k ⟨x, y⟩
  workOut_eq p k := by simp [workOut_eq]

instance : Workable Number where
  workOut
    | .int n, k => workOut n fun n => k (.int n)
    | a, k => k a
  workOut_eq a k := by cases a <;> simp [workOut_eq]

instance : Workable Meeting where
  workOut
    | ⟨purpose, master, onId, age⟩, k =>
      workOut master fun master => workOut onId fun onId => workOut age fun age =>
        match purpose with
        | .none => k ⟨.none, master, onId, age⟩
        | .square => k ⟨.square, master, onId, age⟩
        | .curly => k ⟨.curly, master, onId, age⟩
        | .switch => k ⟨.switch, master, onId, age⟩
  workOut_eq m k := by
    obtain ⟨purpose, master, onId, age⟩ := m
    cases purpose <;> simp [workOut_eq]

instance : Workable Phase where
  workOut
    | .travel, k => k .travel
    | .dead, k => k .dead
    | .value ⟨entered, started, byCode⟩, k =>
      workOut entered fun entered => workOut started fun started => workOut byCode fun byCode =>
        k (.value ⟨entered, started, byCode⟩)
    | .print ⟨entered, newline, byCode, done⟩, k =>
      workOut entered fun entered => workOut newline fun newline => workOut byCode fun byCode =>
        workOut done fun done => k (.print ⟨entered, newline, byCode, done⟩)
    | .meet m, k => workOut m fun m => k (.meet m)
    | p, k => k p
  workOut_eq p k := by cases p <;> simp [workOut_eq]

/-- Work out all members of a list. -/
def workOutAll {α β : Type} [Workable α] : List α → (List α → β) → β
  | [], k => k []
  | a :: as, k => workOut a fun a => workOutAll as fun as => k (a :: as)

instance {α : Type} [Workable α] : Workable (List α) where
  workOut := workOutAll
  workOut_eq as k := by
    induction as generalizing k with
    | nil => rfl
    | cons a as ih =>
      unfold workOutAll
      rw [workOut_eq, ih]

instance : Workable Dot where
  workOut
    | ⟨pos, spawn, dir, value, id, phase, stack⟩, k =>
      workOut pos fun pos => workOut spawn fun spawn => workOut dir fun dir =>
        workOut value fun value => workOut id fun id => workOut phase fun phase =>
          workOut stack fun stack => k ⟨pos, spawn, dir, value, id, phase, stack⟩
  workOut_eq d k := by simp [workOut_eq]

namespace Symbolic

/-- Ticks, one after the other, as long as there are dots. -/
def ticks (w : World) : Nat → List Dot → Option (List Dot × List Query)
  | 0, dots => some (dots, [])
  | n + 1, dots =>
    if dots.isEmpty then none
    else
      (tick w dots).bind fun (after, qs) =>
        workOut after fun after => (ticks w n after).map fun (last, qs') => (last, qs ++ qs')

/-- A run conforms to the symbolic one, if every question has the same answer. -/
theorem loop_conforms {ρ : Int → Int} {w : World} {n : Nat} {dots dots' : List Dot}
    {qs : List Query}
    {s : Scene} (hticks : ticks w n dots = some (dots', qs)) (hholds : ∀ q ∈ qs, q.Holds ρ)
    (htakes : s.console.Takes) (hdots : List.Forall₂ (Dot.Models ρ) dots s.dots) :
    Conforms ρ (printed ρ qs) dots' s.console (Machine.loop w true n s) := by
  induction n generalizing dots qs s with
  | zero =>
    cases hticks
    exact conforms_silently htakes hdots
  | succ n ih =>
    unfold ticks at hticks
    split at hticks
    · cases hticks
    · next hsome =>
      have hne : s.dots ≠ [] := by
        intro hnil
        rw [hnil] at hdots
        cases hdots
        exact hsome rfl
      obtain ⟨⟨after, qs₁⟩, hfirst, hticks⟩ := Option.bind_eq_some_iff.mp hticks
      simp only [workOut_eq] at hticks
      obtain ⟨⟨last, qs₂⟩, hrest, hpair⟩ := Option.map_eq_some_iff.mp hticks
      cases hpair
      rw [Machine.loop_of_dots hne, printed_append]
      refine (tick_conforms htakes hdots hfirst ?_).bind ?_
      · intro q hq
        exact hholds q (by simp [hq])
      · intro t ht htakes'
        apply ih hrest _ htakes' ht
        intro q hq
        exact hholds q (by simp [hq])

/-! ## Runs that end -/

/-- The end of a run in which these numbers were to be printed.  It comes to a cell
    that stops it, or before that to a number that has no text. -/
def EndsFor (w : World) (fault : Option ArithFault) (why : Stop) (s : Scene) : Prop :=
  match fault with
  | none => why = .exit ∧ ∃ d ∈ s.dots, d.phase = .exit ∧ w.hasGlyph d.pos '&' = true
  | some f => why = .fault (.arith f)

/-- From the scene the ticks come to an end, and the numbers are printed before. -/
def Concludes (w : World) (ns : List Int) (s : Scene) : Prop :=
  ∃ fuel why t, Machine.loop w true fuel s = .error why t ∧
    s.console.Took (lines ns).1 t.console ∧ EndsFor w (lines ns).2 why t

/-- What conforms comes first; the run may stop there already. -/
theorem Concludes.of_conforms {ρ : Int → Int} {w : World} {ns ns' : List Int} {dots : List Dot}
    {n : Nat} {s : Scene} (h : Conforms ρ ns dots s.console (Machine.loop w true n s))
    (hrest : ∀ t : Scene, List.Forall₂ (Dot.Models ρ) dots t.dots → t.console.Takes →
      Concludes w ns' t) : Concludes w (ns ++ ns') s := by
  cases hn : Machine.loop w true n s with
  | error why t =>
    rw [hn] at h
    obtain ⟨f, hf, hwhy, htook⟩ := h
    refine ⟨n, why, t, hn, ?_, ?_⟩
    · rw [lines_append_of_fault hf]
      exact htook
    · rw [lines_append_of_fault hf, hf]
      exact hwhy
  | ok x t =>
    rw [hn] at h
    obtain ⟨hnone, hdots, htook⟩ := h
    obtain ⟨fuel, why, u, hloop, htook', hend⟩ := hrest t hdots htook.takes
    refine ⟨n + fuel, why, u, ?_, ?_, ?_⟩
    · rw [Machine.loop_add hn]
      exact hloop
    · rw [lines_append hnone]
      exact htook.trans htook'
    · rw [lines_append hnone]
      exact hend

/-- A dot that is alone and has come to an exit stops the run in the next tick. -/
theorem tick_of_exit {w : World} {c : Cell} {e : Dot} {s : Scene} (hdots : s.dots = [e])
    (hphase : e.phase = .travel) (hc : w.cell? e.pos = some c) (hglyph : c.glyph = '&')
    (hplain : c.kind.isOperator = false) :
    Machine.parallelTick w s = .error .exit { s with dots := [{ e with phase := .exit }] } := by
  have hchosen : e.chosen w = .ok { e with phase := .exit } := by
    have hchoose : e.choose c = .ok .exit := by
      simp [Dot.choose, hphase, Dot.travelPhase, hglyph, hplain]
    have hblank : c.isBlank = false := by simp [Cell.isBlank, hglyph]
    simp [Dot.chosen, hc, hchoose, hblank, Except.map]
  have hchoose : Machine.chooseAll w s.dots.length s =
      .ok () { s with dots := [{ e with phase := .exit }] } := by
    apply Machine.chooseAll_ok_iff.mpr
    rw [hdots]
    exact ⟨.cons hchosen .nil, rfl⟩
  have hact : Machine.actAll w s.dots.length { s with dots := [{ e with phase := .exit }] } =
      .error .exit { s with dots := [{ e with phase := .exit }] } := by
    rw [hdots]
    exact bind_of_error (act_of_stop rfl hc rfl)
  show (Machine.chooseAll w s.dots.length >>= fun _ => Machine.actAll w s.dots.length >>= _) s = _
  rw [bind_of_ok hchoose]
  exact bind_of_error hact

end Symbolic

/-- A run whose ticks stop for a reason is over for this reason, if the console can be
    told. -/
theorem Machine.run_of_loop {m : Machine} {fuel : Nat} {why : Stop} {t : Scene}
    (hgo : m.shutdown = false) (h : loop m.world m.parallel fuel m.scene = .error why t)
    (ht : t.console.Takes) : (run fuel m).2 = some why := by
  obtain ⟨c, hc⟩ := ht.finish
  have hfinish : Scene.onConsole Console.finish t = .ok () { t with console := c } := by
    unfold Scene.onConsole
    rw [hc]
  simp [run, body, perform, hgo, h, terminate, hfinish]

end DotPaths
