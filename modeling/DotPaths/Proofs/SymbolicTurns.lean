import Mathlib.Data.List.Forall2
import DotPaths.Proofs.RoundEnd

/-! # Symbolic turns

    The numbers that dots carry have a part in what dots do at a few places only.
    So what a dot does can be tried out with another number that stands in for its
    own.  Where the number matters a question is written down; if it has the same
    answer for the number itself, the dot does the same as its stand-in.

    - `Query.Holds`: the question has the same answer.
    - `choose_sound`, `deed_models`, `outcome_sound`: choosing, acting alone and
      meeting another dot, with stand-ins and with the numbers themselves.

    A trial gives up where more is asked than it can write down: when a dot reads,
    when its id matters, or when it takes up a number of several digits.
-/

namespace DotPaths

/-! ## Questions about numbers -/

/-- What a run asks about the numbers of its dots. -/
inductive Query where
  /-- A digit is taken up as it is. -/
  | digit (n : Int)
  /-- Is the number zero? -/
  | zero (n : Int)
  /-- The operator with this character makes `result` of two numbers. -/
  | operate (glyph : Char) (x y result : Int)
  /-- The number is printed on a line of its own. -/
  | print (n : Int)
  deriving DecidableEq

/-- The question has the same answer for the numbers that are stood in for.  What is
    printed has no answer. -/
def Query.Holds (ρ : Int → Int) : Query → Prop
  | .digit n => ρ n = n
  | .zero n => ρ n = 0 ↔ n = 0
  | .operate glyph x y result =>
    ∃ a, Operator.calculate (String.singleton glyph) (.int (ρ x)) (.int (ρ y)) = .ok a ∧
      a.toNumber = .int (ρ result)
  | .print _ => True

section operations
variable {ρ : Int → Int} {x y z : Int}

theorem Query.holds_add (h : ρ z = ρ x + ρ y) : (Query.operate '+' x y z).Holds ρ := by
  refine ⟨.number (.int (ρ x + ρ y)), rfl, ?_⟩
  rw [h]
  rfl

theorem Query.holds_sub (h : ρ z = ρ x - ρ y) : (Query.operate '-' x y z).Holds ρ := by
  refine ⟨.number (.int (ρ x - ρ y)), rfl, ?_⟩
  rw [h]
  rfl

theorem Query.holds_gt (h : ρ z = if compare (ρ x) (ρ y) == .gt then 1 else 0) :
    (Query.operate '>' x y z).Holds ρ := by
  refine ⟨.truth (compare (ρ x) (ρ y) == .gt), rfl, ?_⟩
  rw [h]
  rfl

end operations

/-- The integer that a number is. -/
def Number.int? : Number → Option Int
  | .int n => some n
  | _ => none

theorem Number.int?_eq_some {a : Number} {n : Int} (h : a.int? = some n) : a = .int n := by
  cases a with
  | int m =>
    cases h
    rfl
  | real x => cases h
  | complex re im => cases h

/-- The symbolic dot `d` models the dot `e` of the run: it is where `e` is, in the same
    phase, and its value stands for the value of `e`. -/
structure Dot.Models (ρ : Int → Int) (d e : Dot) : Prop where
  pos : e.pos = d.pos
  dir : e.dir = d.dir
  phase : e.phase = d.phase
  stack : e.stack = d.stack
  value : ∃ n, d.value = .int n ∧ e.value = .int (ρ n)

namespace Dot.Models

variable {ρ : Int → Int} {d e : Dot}

theorem move (h : d.Models ρ e) : d.move.Models ρ e.move where
  pos := by rw [move_pos, move_pos, h.pos, h.dir]
  dir := h.dir
  phase := h.phase
  stack := h.stack
  value := h.value

theorem rephase (h : d.Models ρ e) (phase : Phase) :
    Models ρ { d with phase := phase } { e with phase := phase } where
  pos := h.pos
  dir := h.dir
  phase := rfl
  stack := h.stack
  value := h.value

theorem turn (h : d.Models ρ e) (dir : Pos) :
    Models ρ { d with dir := dir } { e with dir := dir } where
  pos := h.pos
  dir := rfl
  phase := h.phase
  stack := h.stack
  value := h.value

theorem place (h : d.Models ρ e) (p : Pos) : Models ρ { d with pos := p } { e with pos := p } where
  pos := rfl
  dir := h.dir
  phase := h.phase
  stack := h.stack
  value := h.value

theorem restack (h : d.Models ρ e) (stack : List Pos) :
    Models ρ { d with stack := stack } { e with stack := stack } where
  pos := h.pos
  dir := h.dir
  phase := h.phase
  stack := rfl
  value := h.value

theorem setValue (h : d.Models ρ e) (n : Int) :
    Models ρ { d with value := .int n } { e with value := .int (ρ n) } where
  pos := h.pos
  dir := h.dir
  phase := h.phase
  stack := h.stack
  value := ⟨n, rfl, rfl⟩

theorem settled (h : d.Models ρ e) (w : World) : (d.settled w).Models ρ (e.settled w) := by
  have hlost : Turn.isLost w e = Turn.isLost w d := by
    unfold Turn.isLost
    rw [h.pos, h.phase]
  unfold Dot.settled
  rw [hlost]
  split
  · exact h.rephase .dead
  · exact h

theorem waitOn (h : d.Models ρ e) (m : Meeting) : (d.waitOn m).Models ρ (e.waitOn m) :=
  h.rephase _

/-- A dot that sets out carries the same number on. -/
theorem branch (h : d.Models ρ e) (dir : Pos) : (d.branch dir).Models ρ (e.branch dir) where
  pos := by
    show e.pos + dir = d.pos + dir
    rw [h.pos]
  dir := rfl
  phase := rfl
  stack := h.stack
  value := by
    obtain ⟨n, hd, he⟩ := h.value
    refine ⟨n, ?_, ?_⟩
    · show d.value.orZero = .int n
      rw [hd, Number.orZero_int]
    · show e.value.orZero = .int (ρ n)
      rw [he, Number.orZero_int]

theorem branches (h : d.Models ρ e) (w : World) :
    List.Forall₂ (Models ρ) (d.branches w) (e.branches w) := by
  unfold Dot.branches
  rw [h.pos, h.dir, List.forall₂_map_left_iff, List.forall₂_map_right_iff]
  exact List.forall₂_same.mpr fun dir _ => h.branch dir

end Dot.Models

/-! ## Choosing -/

namespace Symbolic

/-- A dot chooses; the trial gives up where the choice is about a number. -/
def choose (w : World) (d : Dot) : Option Dot :=
  match d.phase with
  | .ident _ => none
  | _ =>
    if (w.cell? d.pos).any fun c => c.glyph == ':' || c.glyph == ';' then none
    else (d.chosen w).toOption

/-- All dots choose. -/
def chooseAll (w : World) : List Dot → Option (List Dot)
  | [] => some []
  | d :: dots => (choose w d).bind fun d' => (chooseAll w dots).map (d' :: ·)

variable {ρ : Int → Int} {w : World} {c : Cell} {d d' e : Dot}

theorem travelPhase_eq (h : d.Models ρ e) (hcolon : c.glyph ≠ ':') (hsemicolon : c.glyph ≠ ';') :
    e.travelPhase c = d.travelPhase c := by
  unfold Dot.travelPhase
  simp [h.dir, hcolon, hsemicolon]

/-- Of all cells only the filters look at the number of a dot that chooses. -/
theorem choose_eq (h : d.Models ρ e) (hcolon : c.glyph ≠ ':') (hsemicolon : c.glyph ≠ ';')
    (hident : ∀ x, d.phase ≠ .ident x) : e.choose c = d.choose c := by
  have htravel := travelPhase_eq h hcolon hsemicolon
  unfold Dot.choose
  rw [h.phase]
  cases hphase : d.phase with
  | ident x => exact absurd hphase (hident x)
  | print p => simp only [Dot.printPhase, htravel]
  | _ => simp only [htravel]

theorem choose_sound (h : d.Models ρ e) (hd : choose w d = some d') :
    ∃ e', e.chosen w = .ok e' ∧ d'.Models ρ e' := by
  -- The trial has not given up, so no id is taken up and the cell is no filter.
  have hident : ∀ x, d.phase ≠ .ident x := by
    intro x hx
    simp [choose, hx] at hd
  have hchoice : (if (w.cell? d.pos).any fun c => c.glyph == ':' || c.glyph == ';' then none
      else (d.chosen w).toOption) = some d' := by
    unfold choose at hd
    split at hd
    · cases hd
    · exact hd
  split at hchoice
  · cases hchoice
  · next hglyph =>
    unfold Dot.chosen at hchoice ⊢
    cases hc : w.cell? d.pos with
    | none =>
      rw [hc] at hchoice
      cases hchoice
      rw [h.pos, hc]
      exact ⟨e.die, rfl, h.rephase .dead⟩
    | some c =>
      have hplain : c.glyph ≠ ':' ∧ c.glyph ≠ ';' := by
        rw [hc] at hglyph
        simpa using hglyph
      have hsame := choose_eq h hplain.1 hplain.2 hident
      have hcell : w.cell? e.pos = some c := by rw [h.pos, hc]
      rw [hc] at hchoice
      simp only [hcell, hsame]
      cases hphase : d.choose c with
      | error why =>
        simp only [hphase] at hchoice
        cases hchoice
      | ok phase =>
        simp only [hphase] at hchoice
        cases hchoice
        exact ⟨_, rfl, h.rephase _⟩

/-- If each dot can choose as the one that models it, so can all of them. -/
theorem chooseAll_sound {S : Dot → Dot → Prop} {dots chosen actual : List Dot}
    (hS : ∀ {d d' e}, S d e → choose w d = some d' → ∃ e', e.chosen w = .ok e' ∧ S d' e')
    (hd : chooseAll w dots = some chosen) (h : List.Forall₂ S dots actual) :
    ∃ ready, List.Forall₂ (fun e e' : Dot => e.chosen w = .ok e') actual ready ∧
      List.Forall₂ S chosen ready := by
  induction h generalizing chosen with
  | nil =>
    cases hd
    exact ⟨[], .nil, .nil⟩
  | cons hde _ ih =>
    unfold chooseAll at hd
    obtain ⟨d', hd', hd⟩ := Option.bind_eq_some_iff.mp hd
    obtain ⟨rest, hrest, rfl⟩ := Option.map_eq_some_iff.mp hd
    obtain ⟨e', he', hchosen⟩ := hS hde hd'
    obtain ⟨ready, hready, hall⟩ := ih hrest
    exact ⟨e' :: ready, .cons he' hready, .cons hchosen hall⟩

end Symbolic

/-! ## Deeds -/

/-- What a deed leads to that is no meeting: what the dot becomes, and the dots
    that set out. -/
def Deed.lead? : Deed → Option (Dot × List Dot)
  | .become d => some (d, [])
  | .print _ _ d => some (d, [])
  | .branch new d => some (d, new)
  | _ => none

/-- What a symbolic deed leads to models a deed of the run, where these numbers are
    printed: that one has an effect of the same kind, or it stops the run since the
    number has no text. -/
inductive Deed.Models (ρ : Int → Int) : Dot × List Dot → List Int → Deed → Prop where
  | become {d e : Dot} : d.Models ρ e → Models ρ (d, []) [] (.become e)
  | branch {d e : Dot} {new new' : List Dot} :
      d.Models ρ e → List.Forall₂ (Dot.Models ρ) new new' → Models ρ (d, new) [] (.branch new' e)
  | print {d e before : Dot} {n : Int} {text : String} :
      d.Models ρ e → (Number.int n).text = .ok text →
      Models ρ (d, []) [n] (.print (.text (text ++ "\n" : String)) before e)
  | wordless {d e : Dot} {n : Int} {f : ArithFault} :
      (Number.int n).text = .error f → Models ρ (d, []) [n] (.stop e (.fault (.arith f)))

namespace Symbolic

/-- What is asked when a dot acts that waits for nobody. -/
def asks (d : Dot) (c : Cell) : Option (List Query) :=
  match d.phase with
  | .travel | .dead => some []
  | .value e =>
    if !e.entered then some []
    else if e.started then none
    else (Text.digitValue? c.glyph).map fun (k : Nat) => [.digit k]
  | .print p =>
    if !p.entered then some []
    else if c.glyph == '#' && p.newline && !p.byCode then d.value.int?.map fun n => [.print n]
    else none
  | _ => none

/-- The numbers that are printed, where `ρ` says what stands for what. -/
def printed (ρ : Int → Int) (qs : List Query) : List Int :=
  qs.filterMap fun
    | .print n => some (ρ n)
    | _ => none

@[simp] theorem printed_append (ρ : Int → Int) (qs qs' : List Query) :
    printed ρ (qs ++ qs') = printed ρ qs ++ printed ρ qs' :=
  List.filterMap_append

variable {ρ : Int → Int} {w : World} {c : Cell} {d e : Dot} {lead : Dot × List Dot}
  {qs : List Query}

theorem travelDeed_models (h : d.Models ρ e) (hlead : (d.travelDeed w c).lead? = some lead) :
    Deed.Models ρ lead [] (e.travelDeed w c) := by
  unfold Dot.travelDeed at hlead ⊢
  rw [h.dir]
  by_cases hturn : Dot.isTurn c d.dir = true
  · rw [if_pos hturn] at hlead ⊢
    cases hlead
    exact .become (h.turn _).move
  rw [if_neg hturn] at hlead ⊢
  by_cases hcross : (c.glyph == '*') = true
  · rw [if_pos hcross] at hlead ⊢
    cases hlead
    exact .branch h.move (h.branches w)
  rw [if_neg hcross] at hlead ⊢
  cases hwarp : c.kind.warp? with
  | none =>
    simp only [hwarp] at hlead ⊢
    cases hlead
    exact .become h.move
  | some v =>
    simp only [hwarp] at hlead ⊢
    by_cases hout : (v.role == .exposed) = true
    · -- The way out is the one that both came in by.
      rw [if_pos hout] at hlead ⊢
      unfold Dot.leave at hlead ⊢
      rw [h.stack]
      cases hstack : d.stack with
      | nil =>
        simp only [hstack] at hlead
        split at hlead
        · cases hlead
        · cases hlead
      | cons p stack =>
        simp only [hstack] at hlead ⊢
        cases hlead
        exact .become ((h.place p).restack stack).move
    · rw [if_neg hout] at hlead ⊢
      unfold Dot.warpThrough at hlead ⊢
      cases htarget : c.kind.target with
      | error f =>
        simp only [htarget] at hlead
        cases hlead
      | ok target =>
        cases target with
        | none =>
          simp only [htarget] at hlead
          cases hlead
        | some p =>
          simp only [htarget] at hlead ⊢
          cases hlead
          by_cases hin : v.role.isRemembered = true
          · simp only [if_pos hin, h.pos, h.stack]
            exact .become ((h.place p).restack _).move
          · simp only [if_neg hin]
            exact .become (h.place p).move

theorem printDeed_hash {p : Printing} (hentered : ¬ (!p.entered) = true) (hglyph : c.glyph = '#') :
    d.printDeed c p = d.printNumber p d.value := by
  unfold Dot.printDeed
  rw [if_neg hentered, hglyph]
  rfl

theorem eq_of_printNumber_lead {p : Printing} {a : Number}
    (h : (d.printNumber p a).lead? = some lead) :
    lead = ({ d with phase := .print { p with done := true } }.move, []) := by
  unfold Dot.printNumber at h
  split at h
  · cases h
    rfl
  · cases h

theorem printNumber_models {p : Printing} {n : Int} (h : d.Models ρ e) (hn : e.value = .int n)
    (hnewline : p.newline = true) (hcode : p.byCode = false) :
    Deed.Models ρ ({ d with phase := .print { p with done := true } }.move, []) [n]
      (e.printNumber p e.value) := by
  unfold Dot.printNumber Dot.printed
  simp only [hnewline, hcode, Bool.false_eq_true, if_false, if_true]
  cases htext : e.value.text with
  | ok text =>
    rw [hn] at htext
    exact .print (h.rephase _).move htext
  | error f =>
    rw [hn] at htext
    exact .wordless htext

theorem entryDeed_models {x : Entry} (h : d.Models ρ e) (hphase : d.phase = .value x)
    (hasks : asks d c = some qs) (hholds : ∀ q ∈ qs, q.Holds ρ)
    (hlead : (d.deed w c).lead? = some lead) :
    Deed.Models ρ lead (printed ρ qs) (e.deed w c) := by
  have hphase' : e.phase = .value x := by rw [h.phase, hphase]
  simp only [asks, hphase] at hasks
  simp only [Dot.deed, hphase, hphase', Dot.entryDeed] at hlead ⊢
  by_cases hentered : (!x.entered) = true
  · rw [if_pos hentered] at hasks hlead ⊢
    cases hasks
    cases hlead
    exact .become (h.rephase _).move
  rw [if_neg hentered] at hasks hlead ⊢
  split at hasks
  · cases hasks
  · next hstarted =>
    -- The first digit replaces the number that was there.
    obtain ⟨k, hk, hqs⟩ := Option.map_eq_some_iff.mp hasks
    subst hqs
    have hdigit : ρ k = k := hholds (.digit k) (by simp)
    simp only [hk, Dot.takeDigit, if_neg hstarted] at hlead ⊢
    cases hlead
    have hset := h.setValue k
    rw [hdigit] at hset
    exact .become (hset.rephase _).move

theorem printDeed_models {p : Printing} (h : d.Models ρ e) (hphase : d.phase = .print p)
    (hasks : asks d c = some qs) (hlead : (d.deed w c).lead? = some lead) :
    Deed.Models ρ lead (printed ρ qs) (e.deed w c) := by
  have hphase' : e.phase = .print p := by rw [h.phase, hphase]
  simp only [asks, hphase] at hasks
  simp only [Dot.deed, hphase, hphase'] at hlead ⊢
  by_cases hentered : (!p.entered) = true
  · unfold Dot.printDeed at hlead ⊢
    rw [if_pos hentered] at hasks hlead ⊢
    cases hasks
    cases hlead
    exact .become (h.rephase _).move
  rw [if_neg hentered] at hasks
  split at hasks
  · next hplain =>
    simp only [Bool.and_eq_true, beq_iff_eq, Bool.not_eq_true'] at hplain
    obtain ⟨⟨hglyph, hnewline⟩, hcode⟩ := hplain
    -- The text of the stand-in has no part in this: what counts is that of the number.
    obtain ⟨n, hn, hqs⟩ := Option.map_eq_some_iff.mp hasks
    subst hqs
    have hvalue : e.value = .int (ρ n) := by
      obtain ⟨k, hk, hρ⟩ := h.value
      rw [hk] at hn
      cases hn
      exact hρ
    rw [printDeed_hash hentered hglyph] at hlead ⊢
    rw [eq_of_printNumber_lead hlead]
    exact printNumber_models h hvalue hnewline hcode
  · cases hasks

/-- A dot does the same as its stand-in, if every question has the same answer. -/
theorem deed_models (h : d.Models ρ e) (hasks : asks d c = some qs) (hholds : ∀ q ∈ qs, q.Holds ρ)
    (hlead : (d.deed w c).lead? = some lead) : Deed.Models ρ lead (printed ρ qs) (e.deed w c) := by
  cases hphase : d.phase with
  | travel =>
    have hphase' : e.phase = .travel := by rw [h.phase, hphase]
    simp only [asks, hphase] at hasks
    simp only [Dot.deed, hphase, hphase'] at hlead ⊢
    cases hasks
    exact travelDeed_models h hlead
  | dead =>
    have hphase' : e.phase = .dead := by rw [h.phase, hphase]
    simp only [asks, hphase] at hasks
    simp only [Dot.deed, hphase, hphase'] at hlead ⊢
    cases hasks
    cases hlead
    exact .become h
  | value x => exact entryDeed_models h hphase hasks hholds hlead
  | print p => exact printDeed_models h hphase hasks hlead
  | _ =>
    simp only [asks, hphase] at hasks
    cases hasks

/-! ## Meetings -/

/-- The dot that a waiting dot meets in its turn, if it meets one. -/
def partner? (i : Nat) (d : Dot) (m : Meeting) (dots : List Dot) : Option Nat :=
  if m.master && Meeting.oldest? d.pos true dots == some i then Meeting.oldest? d.pos false dots
  else none

/-- What becomes of a master that meets another dot.  The trial gives up if
    they meet for their ids. -/
def outcome (c : Cell) (d : Dot) (m : Meeting) (o : Dot) : Option (Dot × List Query) :=
  match o.phase.meeting?, d.value.int?, o.value.int? with
  | some m', some n, some k =>
    if m.onId || m'.onId then none
    else
      (m.outcome c d (.int k)).toOption.bind fun r =>
        if m.purpose = .switch then some (r, [.zero k])
        else r.value.int?.map fun v => (r, [.operate c.glyph n k v])
  | _, _, _ => none

/-- The turn of a waiting dot. -/
def meet (w : World) (c : Cell) (i : Nat) (d : Dot) (m : Meeting) (dots : List Dot) :
    Option (List Dot × List Query) :=
  match partner? i d m dots with
  | none => some (dots.set i ((d.waitOn m).settled w), [])
  | some j =>
    dots[j]?.bind fun o =>
      (outcome c d m o).map fun (r, qs) =>
        ((dots.set j o.die).set i ({ r with phase := .travel }.move.settled w), qs)

theorem oldest?_eq {dots actual : List Dot} (h : List.Forall₂ (Dot.Models ρ) dots actual) (p : Pos)
    (role : Bool) : Meeting.oldest? p role actual = Meeting.oldest? p role dots := by
  have hfrom : ∀ i best, Meeting.oldestFrom p role i best actual =
      Meeting.oldestFrom p role i best dots := by
    induction h with
    | nil => exact fun _ _ => rfl
    | cons hde _ ih =>
      intro i best
      unfold Meeting.oldestFrom Dot.waitingAge?
      rw [hde.phase, hde.pos]
      simp only [ih]
  unfold Meeting.oldest?
  rw [hfrom]

theorem outcome_of_switch {m : Meeting} {a : Number} (h : m.purpose = .switch) :
    m.outcome c d a = .ok (if a.isZero then d else { d with dir := .up }) := by
  simp [Meeting.outcome, h]

/-- A meeting for anything but a switch is for a calculation. -/
theorem outcome_ok {m : Meeting} {a : Number} {r : Dot} (h : m.purpose ≠ .switch)
    (hr : m.outcome c d a = .ok r) :
    ∃ x : Answer, r = d.setStake m x.toNumber ∧
      ∀ (e : Dot) b y, Operator.calculate (String.singleton c.glyph) (e.stake m) b = .ok y →
        m.outcome c e b = .ok (e.setStake m y.toNumber) := by
  unfold Meeting.outcome at hr ⊢
  cases hpurpose : m.purpose with
  | none =>
    rw [hpurpose] at hr
    cases hr
  | switch => exact absurd hpurpose h
  | _ =>
    simp only [hpurpose] at hr ⊢
    by_cases hop : c.kind.isOperator = true
    · rw [if_pos hop] at hr
      cases hx : Operator.calculate (String.singleton c.glyph) (d.stake m) a with
      | error f =>
        rw [hx] at hr
        cases hr
      | ok x =>
        rw [hx] at hr
        cases hr
        refine ⟨x, rfl, ?_⟩
        intro e b y hy
        rw [if_pos hop, hy]
    · rw [if_neg hop] at hr
      cases hr

theorem switch_models {m : Meeting} {k : Int} {r : Dot} (h : d.Models ρ e)
    (hswitch : m.purpose = .switch) (hr : m.outcome c d (.int k) = .ok r)
    (hzero : (Query.zero k).Holds ρ) :
    ∃ r', m.outcome c e (.int (ρ k)) = .ok r' ∧ r.Models ρ r' := by
  have hiff : ρ k = 0 ↔ k = 0 := hzero
  have hsame : (Number.int (ρ k)).isZero = (Number.int k).isZero := by
    simp [Number.isZero, hiff]
  rw [outcome_of_switch hswitch] at hr ⊢
  cases hr
  refine ⟨_, rfl, ?_⟩
  rw [hsame]
  split
  · exact h
  · exact h.turn .up

theorem operation_models {m : Meeting} {n k v : Int} {r : Dot} (h : d.Models ρ e)
    (hn : e.value = .int (ρ n)) (hvalue : m.onId = false) (hswitch : m.purpose ≠ .switch)
    (hr : m.outcome c d (.int k) = .ok r) (hv : r.value = .int v)
    (hop : (Query.operate c.glyph n k v).Holds ρ) :
    ∃ r', m.outcome c e (.int (ρ k)) = .ok r' ∧ r.Models ρ r' := by
  have hstake : e.stake m = .int (ρ n) := by simp [Dot.stake, hvalue, hn]
  have hset : ∀ (d' : Dot) a, d'.setStake m a = { d' with value := a } := by
    intro d' a
    simp [Dot.setStake, hvalue]
  -- The stand-ins have come to `x` and the numbers come to `y`, which `v` stands for.
  obtain ⟨x, rfl, hout⟩ := outcome_ok hswitch hr
  obtain ⟨y, hy, hnumber⟩ := hop
  rw [← hstake] at hy
  refine ⟨_, hout e (.int (ρ k)) y hy, ?_⟩
  rw [hset] at hv ⊢
  have hx : x.toNumber = .int v := hv
  rw [hset, hnumber, hx]
  exact h.setValue v

/-- A meeting ends for the dots as for their stand-ins, and nothing is printed. -/
theorem outcome_sound {m : Meeting} {o o' r : Dot} (h : d.Models ρ e) (ho : o.Models ρ o')
    (hr : outcome c d m o = some (r, qs)) (hholds : ∀ q ∈ qs, q.Holds ρ) :
    ∃ r', m.outcome c e o'.offer = .ok r' ∧ r.Models ρ r' ∧ printed ρ qs = [] := by
  obtain ⟨n, hn, hρn⟩ := h.value
  obtain ⟨k, hk, hρk⟩ := ho.value
  cases hphase : o.phase.meeting? with
  | none => simp [outcome, hphase] at hr
  | some m' =>
    simp only [outcome, hphase, hn, hk, Number.int?] at hr
    split at hr
    · cases hr
    · next hvalues =>
      obtain ⟨hmine, htheirs⟩ : m.onId = false ∧ m'.onId = false := by simpa using hvalues
      -- Neither of the two deals with its id, so both bring their values.
      have hoffer : o'.offer = .int (ρ k) := by
        unfold Dot.offer
        rw [ho.phase, hphase]
        simp [Dot.stake, htheirs, hρk]
      rw [hoffer]
      cases hok : m.outcome c d (.int k) with
      | error f =>
        rw [hok] at hr
        cases hr
      | ok r₀ =>
        simp only [hok, Except.toOption, Option.bind_some] at hr
        by_cases hswitch : m.purpose = .switch
        · rw [if_pos hswitch] at hr
          cases hr
          obtain ⟨r', hr', hmodels⟩ := switch_models h hswitch hok (hholds (.zero k) (by simp))
          exact ⟨r', hr', hmodels, rfl⟩
        · rw [if_neg hswitch] at hr
          obtain ⟨v, hv, hpair⟩ := Option.map_eq_some_iff.mp hr
          cases hpair
          obtain ⟨r', hr', hmodels⟩ := operation_models h hρn hmine hswitch hok
            (Number.int?_eq_some hv) (hholds (.operate c.glyph n k v) (by simp))
          exact ⟨r', hr', hmodels, rfl⟩

end Symbolic

end DotPaths
