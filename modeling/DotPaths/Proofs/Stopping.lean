import DotPaths.Proofs.Placement

/-! # Why actions stop

    The console stops a run when it has no more input, cannot show something,
    or has reached a limit.  A dot stops it when it ends the run, when a number
    fails it, or when a warp leads nowhere.  A cell that cannot calculate is
    asked to do so only by a dot that waits where it should not.
-/

namespace DotPaths

/-- Does the run stop because a cell is to calculate that cannot? -/
def Stop.lacksCalculation : Stop → Bool
  | .fault (.cell (.unable _ .calculate)) => true
  | _ => false

/-- Whenever the action stops, `P` holds of the reason. -/
def StopsFor {σ α : Type} (P : Stop → Prop) (a : EStateM Stop σ α) : Prop :=
  ∀ s e s', a s = .error e s' → P e

namespace StopsFor

variable {σ α β : Type} {P Q : Stop → Prop} {a : EStateM Stop σ α}

theorem mono (h : StopsFor P a) (hPQ : ∀ e, P e → Q e) : StopsFor Q a :=
  fun s e s' he => hPQ e (h s e s' he)

/-- An action that always completes. -/
theorem completes (h : ∀ s, ∃ x s', a s = .ok x s') : StopsFor P a := by
  intro s e s' he
  obtain ⟨x, t, hok⟩ := h s
  rw [hok] at he
  cases he

theorem pure (x : α) : StopsFor P (Pure.pure x : EStateM Stop σ α) :=
  completes fun s => ⟨x, s, rfl⟩

theorem get : StopsFor P (MonadState.get : EStateM Stop σ σ) :=
  completes fun s => ⟨s, s, rfl⟩

theorem set (s : σ) : StopsFor P (MonadStateOf.set s : EStateM Stop σ PUnit) :=
  completes fun _ => ⟨_, s, rfl⟩

theorem modify (f : σ → σ) : StopsFor P (modify f : EStateM Stop σ PUnit) :=
  completes fun s => ⟨_, f s, rfl⟩

theorem throw {e : Stop} (h : P e) : StopsFor P (MonadExcept.throw e : EStateM Stop σ α) := by
  intro s e' s' he
  rw [← (throw_error_iff.mp he).1]
  exact h

theorem bind {f : α → EStateM Stop σ β} (ha : StopsFor P a) (hf : ∀ x, StopsFor P (f x)) :
    StopsFor P (a >>= f) := by
  intro s e s' he
  rcases bind_error_iff.mp he with he | ⟨x, t, -, he⟩
  · exact ha s e s' he
  · exact hf x t e s' he

theorem ite {b : Prop} [Decidable b] {a' : EStateM Stop σ α} (h : b → StopsFor P a)
    (h' : ¬ b → StopsFor P a') : StopsFor P (if b then a else a') := by
  split
  · next hb => exact h hb
  · next hb => exact h' hb

theorem forM {γ : Type} {f : γ → EStateM Stop σ PUnit} (l : List γ)
    (h : ∀ x, StopsFor P (f x)) : StopsFor P (l.forM f) := by
  induction l with
  | nil => exact pure ()
  | cons x l ih =>
    simp only [List.forM_eq_forM, List.forM_cons] at ih ⊢
    exact bind (h x) fun _ => ih

theorem discard (h : StopsFor P a) : StopsFor P (Functor.discard a) := by
  rw [discard_eq]
  exact bind h fun _ => pure _

end StopsFor

/-! ## The console -/

/-- A reason for which a console stops a run. -/
def Stop.OfConsole : Stop → Prop
  | .exit => True
  | .fault (.arith _) => True
  | .fault (.notProvided _) => True
  | .fault .endOfInput => True
  | .fault .noMoreLines => True
  | .fault .lineTooWide => True
  | .fault .outOfMemory => True
  | _ => False

theorem Stop.OfConsole.not_lacks {e : Stop} (h : e.OfConsole) : e.lacksCalculation = false := by
  unfold lacksCalculation
  split
  · exact h.elim
  · rfl

/-- A reason for which a run stops that is not the deed of a dot. -/
def Stop.OfMachine : Stop → Prop
  | .fault .cannotChoose => True
  | .fault (.noSuchDot _) => True
  | e => e.OfConsole

theorem Stop.OfConsole.ofMachine {e : Stop} (h : e.OfConsole) : e.OfMachine := by
  unfold OfMachine
  split
  · trivial
  · trivial
  · exact h

theorem Stop.OfMachine.not_lacks {e : Stop} (h : e.OfMachine) : e.lacksCalculation = false := by
  unfold OfMachine at h
  split at h
  · rfl
  · rfl
  · exact h.not_lacks

/-- Such a reason, with the only faults that numbers have on a console: one that
    is too long to be written, and a key that is too wide for a code. -/
def Stop.OfService : Stop → Prop
  | .fault (.arith f) => f = .tooManyDigits ∨ f = .codeTooWide
  | e => e.OfConsole

theorem Stop.OfService.ofMachine {e : Stop} (h : e.OfService) : e.OfMachine := by
  unfold OfService at h
  split at h
  · trivial
  · exact OfConsole.ofMachine h

/-- A number without a text is an integer that is too long. -/
theorem Number.text_error {a : Number} {f : ArithFault} (h : a.text = .error f) :
    f = .tooManyDigits := by
  cases a with
  | int n =>
    simp only [text] at h
    by_cases hlong : Integer.isTooLong n = true
    · rw [if_pos hlong] at h
      cases h
      rfl
    · rw [if_neg hlong] at h
      cases h
  | real x => cases h
  | complex re im => cases h

/-- What has no text is such a number. -/
theorem Payload.render_error {p : Payload} {f : ArithFault} (h : p.render = .error f) :
    f = .tooManyDigits := by
  cases p with
  | text t => cases h
  | number a =>
    cases ha : a.text with
    | error f' =>
      rw [render, ha] at h
      cases h
      exact Number.text_error ha
    | ok text =>
      rw [render, ha] at h
      cases h

/-- An integer that is no code is too wide for one, or out of range. -/
theorem Number.toCode_error {n : Int} {f : ArithFault} (h : (Number.int n).toCode = .error f) :
    f = .codeTooWide ∨ f = .codeOutOfRange := by
  simp only [toCode] at h
  split at h
  · cases h
    exact .inl rfl
  · split at h
    · cases h
      exact .inr rfl
    · cases h

namespace Console

theorem write_stops (text : CodeText) : StopsFor Stop.OfService (write text) :=
  .ite (fun _ => .modify _) fun _ => .throw trivial

theorem output_stops (p : Payload) : StopsFor Stop.OfService (output p) := by
  have hrender : StopsFor Stop.OfService (render p) := by
    unfold render
    split
    · exact .pure _
    · next f hf => exact .throw (.inl (Payload.render_error hf))
  have hcount : StopsFor Stop.OfService countOutput := by
    refine .bind .get fun c => .bind (.set _) fun _ => ?_
    exact .ite (fun _ => .throw trivial) fun _ => .pure _
  have hdisplay : ∀ d text, StopsFor Stop.OfService (display d text) := by
    intro d text
    refine .ite (fun _ => .pure _) fun _ => ?_
    split
    · exact write_stops text
    · exact .modify _
    · refine .bind .get fun c => .bind (.modify _) fun _ => .bind (.modify _) fun _ => ?_
      exact .ite (fun _ => .modify _) fun _ => .modify _
  refine .bind .get fun c => ?_
  split
  · exact .throw trivial
  · exact .bind hrender fun text => .modify _
  · exact .bind hrender fun text => .bind hcount fun _ => .bind (.modify _) fun _ => hdisplay _ _

theorem takeLine_stops : StopsFor Stop.OfService takeLine := by
  refine .bind .get fun c => ?_
  split
  · exact .bind (.set _) fun _ => .pure _
  · exact .throw trivial

theorem takeKey_stops : StopsFor Stop.OfService takeKey :=
  .bind .get fun _ => .bind (.set _) fun _ => .bind (.modify _) fun _ => .pure _

theorem takeTyped_stops (row column : Int) : StopsFor Stop.OfService (takeTyped row column) := by
  have hgo : ∀ lines, StopsFor Stop.OfService (takeTyped.go row column lines) := by
    intro lines
    induction lines with
    | nil => exact .bind (.modify _) fun _ => .throw trivial
    | cons line rest ih =>
      refine .bind (.modify _) fun _ => .bind (.modify _) fun _ => ?_
      exact .ite (fun _ => ih) fun _ => .pure _
  exact .bind .get fun c => hgo _

theorem read_stops (byCode : Bool) : StopsFor Stop.OfService (read byCode) := by
  have hinput : StopsFor Stop.OfService (readInput byCode) := by
    refine .ite (fun _ => ?_) fun _ => .bind takeLine_stops fun _ => .pure _
    have htake : StopsFor Stop.OfService takeChar := by
      refine .bind .get fun c => ?_
      split
      · exact .bind (.set _) fun _ => .pure _
      · exact .pure _
    refine .bind htake fun ch => ?_
    split <;> exact .pure _
  have hwindow : ∀ d, StopsFor Stop.OfService (readWindow d byCode) := by
    intro d
    have hblanks : ∀ n, StopsFor Stop.OfService (blanks n) := by
      intro n
      refine .ite (fun _ => .throw trivial) fun _ => ?_
      exact .ite (fun _ => .throw trivial) fun _ => .pure _
    refine .bind (.modify _) fun _ => .bind (.modify _) fun _ => .bind (hblanks _) fun _ => ?_
    refine .bind (.modify _) fun _ => .bind (.modify _) fun _ => .ite (fun _ => ?_) fun _ => ?_
    · refine .bind takeKey_stops fun code => ?_
      unfold codeOfKey
      split
      · exact .pure _
      · exact .pure _
      · next f hne hf =>
        exact .throw (.inr ((Number.toCode_error hf).resolve_right hne))
    · exact .bind (takeTyped_stops _ _) fun _ => .pure _
  refine .bind .get fun c => ?_
  split
  · exact .throw trivial
  · exact hinput
  · refine .ite (fun _ => hwindow _) fun _ => .ite (fun _ => ?_) fun _ => hinput
    exact .bind (.modify _) fun _ => hinput

theorem tick_stops (w : World) (dots : List Pos) : StopsFor Stop.OfService (tick w dots) := by
  have hcount : ∀ atLimit, StopsFor Stop.OfService atLimit →
      StopsFor Stop.OfService (countTick atLimit) := by
    intro atLimit hlimit
    refine .bind .get fun c => .bind (.set _) fun _ => ?_
    exact .ite (fun _ => .bind hlimit fun _ => .throw trivial) fun _ => .pure _
  have hdraw : ∀ d, StopsFor Stop.OfService (draw d w dots) := by
    intro d
    refine .ite (fun _ => ?_) fun _ => ?_
    · refine .bind (.modify _) fun _ => .bind (.forM _ fun _ => .modify _) fun _ => ?_
      exact .bind .get fun _ => write_stops _
    · exact .bind (.modify _) fun _ => .forM _ fun _ => .forM _ fun _ => .modify _
  have hwait : ∀ d, StopsFor Stop.OfService (waitStep d) := by
    intro d
    refine .ite (fun _ => .modify _) fun _ => .ite (fun _ => ?_) fun _ => ?_
    · exact .bind (.modify _) fun _ => .discard takeLine_stops
    · refine .bind takeKey_stops fun code => ?_
      exact .ite (fun _ => .throw trivial) fun _ => .pure _
  refine .bind .get fun c => ?_
  split
  · exact .pure _
  · exact .bind (.modify _) fun _ => hcount _ (.pure _)
  · refine .bind (.modify _) fun _ => ?_
    refine .ite (fun _ => ?_) fun _ => hcount _ (output_stops _)
    exact .bind (hdraw _) fun _ => .bind (hwait _) fun _ => hcount _ (output_stops _)

end Console

/-! ## Deeds -/

/-- If the deed stops the run, `P` holds of the reason. -/
def Deed.Stops (P : Stop → Prop) : Deed → Prop
  | .stop _ why => P why
  | _ => True

theorem Deed.Stops.mono {P Q : Stop → Prop} {deed : Deed} (h : deed.Stops P)
    (hPQ : ∀ e, P e → Q e) : deed.Stops Q := by
  cases deed with
  | stop d why => exact hPQ why h
  | _ => trivial

/-- A reason for which a dot stops a run while it travels: a warp that leads
    nowhere, or a library that the dot never entered and perhaps cannot even say
    so. -/
def Stop.OfTravel : Stop → Prop
  | .fault (.cell (.unable _ .lead)) => True
  | .fault (.cell .targetUnknown) => True
  | .fault (.noDestination _) => True
  | .fault (.neverEntered _) => True
  | .fault (.arith f) => f = .tooManyDigits
  | _ => False

theorem Stop.OfTravel.not_lacks {e : Stop} (h : e.OfTravel) : e.lacksCalculation = false := by
  unfold lacksCalculation
  split
  · exact h.elim
  · rfl

namespace Dot

variable {w : World} {c : Cell} {d : Dot}

theorem describe_error {f : ArithFault} (h : d.describe = .error f) : f = .tooManyDigits := by
  unfold describe at h
  cases hid : d.id.text with
  | error g =>
    rw [hid] at h
    cases h
    exact Number.text_error hid
  | ok id =>
    cases hvalue : d.value.text with
    | error g =>
      rw [hid, hvalue] at h
      cases h
      exact Number.text_error hvalue
    | ok value =>
      rw [hid, hvalue] at h
      cases h

theorem warpThrough_stops (v : Warp) : (d.warpThrough c v).Stops Stop.OfTravel := by
  have htarget : ∀ f, c.kind.target = .error f → (Stop.fault (.cell f)).OfTravel := by
    intro f hf
    unfold CellKind.target at hf
    split at hf
    · split at hf
      · cases hf
        trivial
      · cases hf
    · cases hf
      trivial
  unfold warpThrough
  dsimp only
  split
  · next f hf => exact htarget f hf
  · trivial
  · trivial

theorem leave_stops : d.leave.Stops Stop.OfTravel := by
  unfold leave
  split
  · split
    · trivial
    · next f hf => exact describe_error hf
  · trivial

theorem travelDeed_stops : (d.travelDeed w c).Stops Stop.OfTravel := by
  unfold travelDeed
  split
  · trivial
  · split
    · trivial
    · split
      · split
        · exact leave_stops
        · exact warpThrough_stops _
      · trivial

theorem entryDeed_stops {P : Stop → Prop} {e : Entry} {a : Number} {set : Dot → Number → Dot}
    {phase : Entry → Phase} : (d.entryDeed c e a set phase).Stops P := by
  unfold entryDeed
  repeat' split
  all_goals trivial

/-- A dot that prints stops a run only because a number of its own cannot be
    printed. -/
theorem printDeed_fails {P : Stop → Prop} (p : Printing)
    (hP : ∀ a f, a = d.value ∨ a = d.id → printed p a = .error f → P (.fault (.arith f))) :
    (d.printDeed c p).Stops P := by
  have hnumber : ∀ a, a = d.value ∨ a = d.id → (d.printNumber p a).Stops P := by
    intro a ha
    unfold printNumber
    split
    · trivial
    · next f hf => exact hP a f ha hf
  unfold printDeed
  repeat' split
  · trivial
  · trivial
  · trivial
  · exact hnumber _ (.inl rfl)
  · exact hnumber _ (.inr rfl)
  · trivial

theorem printDeed_stops {P : Stop → Prop} (hP : ∀ f, P (.fault (.arith f))) (p : Printing) :
    (d.printDeed c p).Stops P :=
  printDeed_fails p fun _ f _ _ => hP f

theorem quoteDeed_stops {P : Stop → Prop} {q : Quoting} : (d.quoteDeed c q).Stops P := by
  unfold quoteDeed doubleDeed singleDeed
  dsimp only
  repeat' split
  all_goals trivial

/-- No deed asks for a calculation by itself. -/
theorem deed_stops : (d.deed w c).Stops fun e => e.lacksCalculation = false := by
  unfold deed
  cases d.phase with
  | blank => rfl
  | travel => exact travelDeed_stops.mono fun _ => Stop.OfTravel.not_lacks
  | value e => exact entryDeed_stops
  | ident e => exact entryDeed_stops
  | print p => exact printDeed_stops (fun _ => rfl) p
  | quote q => exact quoteDeed_stops
  | meet m => trivial
  | dead => trivial
  | exit => rfl

end Dot

/-! ## Meetings and turns -/

/-- A meeting that fits its cell can fail only by its numbers. -/
theorem Meeting.Fits.outcome_error {m : Meeting} {c : Cell} {d : Dot} {n : Number} {f : Fault}
    (h : m.Fits c d.dir) (hout : m.outcome c d n = .error f) : ∃ g, f = .arith g := by
  have hoperator : ∀ b, c.kind = .operator b → c.kind.isOperator = true := by
    intro b hb
    rw [hb]
    rfl
  unfold Meeting.outcome at hout
  unfold Meeting.Fits at h
  cases hp : m.purpose with
  | none =>
    rw [hp] at h
    exact h.elim
  | switch =>
    rw [hp] at hout
    cases hout
  | square | curly =>
    rw [hp] at h hout
    simp only [hoperator _ h.1, if_true] at hout
    split at hout
    · cases hout
    · cases hout
      exact ⟨_, rfl⟩

namespace Turn

open Scene

/-- The dot with number `i` stops the run by its deed. -/
def Halts (w : World) (i : Nat) (e : Stop) (s s' : Scene) : Prop :=
  ∃ d c d', s.dots[i]? = some d ∧ w.cell? d.pos = some c ∧ d.deed w c = .stop d' e ∧
    s' = { s with dots := s.dots.set i d' }

variable {w : World} {c : Cell} {i : Nat} {d : Dot} {s s' : Scene} {e : Stop}

theorem Halts.not_lacks (h : Halts w i e s s') : e.lacksCalculation = false := by
  obtain ⟨d, c, d', -, -, hdeed, -⟩ := h
  have hstops := Dot.deed_stops (w := w) (c := c) (d := d)
  rw [hdeed] at hstops
  exact hstops

/-- How a deed stops the run: the console or the meeting fails it, or it is meant to
    stop.  Until then only the dot itself has changed. -/
inductive Fails (c : Cell) (i : Nat) (s : Scene) : Deed → Stop → Scene → Prop where
  | output {p : Payload} {before after : Dot} {e : Stop} {t : Scene} :
      onConsole (Console.output p) { s with dots := s.dots.set i before } = .error e t →
      Fails c i s (.print p before after) e t
  | input {byCode : Bool} {after : Int → Dot} {e : Stop} {t : Scene} :
      onConsole (Console.read byCode) s = .error e t → Fails c i s (.read byCode after) e t
  | meeting {m : Meeting} {e : Stop} {t : Scene} :
      Meeting.perform c i m s = .error e t → Fails c i s (.meet m) e t
  | stop (d : Dot) (why : Stop) :
      Fails c i s (.stop d why) why { s with dots := s.dots.set i d }

theorem perform_fails {deed : Deed} (h : perform c i deed s = .error e s') :
    Fails c i s deed e s' := by
  cases deed with
  | become d' => cases h
  | print p before after =>
    rcases bind_error_iff.mp h with h | ⟨_, t, hset, h⟩
    · cases h
    cases hset
    rcases bind_error_iff.mp h with h | ⟨_, t', -, h⟩
    · exact .output h
    · cases h
  | read byCode after =>
    rcases bind_error_iff.mp h with h | ⟨_, t, -, h⟩
    · exact .input h
    · cases h
  | branch new d' => cases h
  | meet m => exact .meeting h
  | stop d' why =>
    rcases bind_error_iff.mp h with h | ⟨_, t, hset, h⟩
    · cases h
    cases hset
    obtain ⟨rfl, rfl⟩ := throw_error_iff.mp h
    exact .stop d' why

/-- A meeting that fails changes nothing: what fails is its outcome, and until
    then nobody has been touched. -/
theorem meeting_error {m : Meeting} (hd : s.dots[i]? = some d)
    (h : Meeting.perform c i m s = .error e s') :
    s' = s ∧ ∃ o n f, o ∈ s.dots ∧ o.phase = .meet n ∧ m.outcome c d (o.stake n) = .error f ∧
      e = .fault f := by
  unfold Meeting.perform at h
  rw [bind_of_ok (dotAt_apply hd)] at h
  rcases bind_error_iff.mp h with h | ⟨_, _, hget, h⟩
  · cases h
  cases hget
  cases hm : m.master with
  | false =>
    simp only [hm, Bool.false_eq_true, if_false] at h
    cases h
  | true =>
    simp only [hm, if_true] at h
    cases hj : Meeting.oldest? d.pos false s.dots with
    | none =>
      simp only [hj] at h
      cases h
    | some j =>
      simp only [hj] at h
      by_cases hfirst : Meeting.oldest? d.pos true s.dots = some i
      · rw [if_pos hfirst] at h
        -- The partner that was found is there and waits.
        obtain ⟨o, n, ho, hn, -, -⟩ := Meeting.exists_of_oldest? hj
        rw [bind_of_ok (dotAt_apply ho)] at h
        simp only [hn, Phase.meeting?] at h
        rcases bind_error_iff.mp h with h | ⟨_, _, _, h⟩
        · obtain ⟨hsame, f, hf, rfl⟩ := orFail_error h
          exact ⟨hsame, o, n, f, List.mem_of_getElem? ho, hn, hf, rfl⟩
        · cases h
      · rw [if_neg hfirst] at h
        cases h

/-- A poised dot does not ask a cell for a calculation in vain; if it stops the
    run, then by its deed. -/
theorem perform_error (hd : s.dots[i]? = some d) (hc : w.cell? d.pos = some c)
    (hp : d.Poised w) (h : perform c i (d.deed w c) s = .error e s') :
    e.OfMachine ∨ Halts w i e s s' := by
  have hfails := perform_fails h
  generalize hdeed : d.deed w c = deed at hfails
  cases hfails with
  | output hout =>
    obtain ⟨k, hk⟩ := onConsole_error hout
    exact .inl (Console.output_stops _ _ _ _ hk).ofMachine
  | input hread =>
    obtain ⟨k, hk⟩ := onConsole_error hread
    exact .inl (Console.read_stops _ _ _ _ hk).ofMachine
  | @meeting m _ _ hmeeting =>
    -- Only a waiting dot has a meeting for its deed.
    have hphase : d.phase = .meet m := by
      by_cases hphase : ∃ m, d.phase = .meet m
      · obtain ⟨m', hm'⟩ := hphase
        simp only [Dot.deed, hm'] at hdeed
        cases hdeed
        exact hm'
      · have hne := (Dot.deed_goesOn (fun m hm => hphase ⟨m, hm⟩) hc).ne_meet
        exact absurd hdeed (hne m)
    obtain ⟨-, o, n, f, -, -, hout, rfl⟩ := meeting_error hd hmeeting
    obtain ⟨g, rfl⟩ := (hp.fits m c hphase hc).outcome_error hout
    exact .inl trivial
  | stop d' why => exact .inr ⟨d, c, d', hd, hc, hdeed, rfl⟩

theorem choose_stops (w : World) (i : Nat) : StopsFor Stop.OfMachine (choose w i) := by
  intro s e s' h
  unfold choose at h
  rcases dotAt_bind_error h with rfl | ⟨d, -, h⟩
  · trivial
  cases hc : w.cell? d.pos with
  | none =>
    simp only [hc] at h
    cases h
  | some c =>
    simp only [hc] at h
    cases hch : d.choose c with
    | error why =>
      simp only [hch] at h
      rw [← (throw_error_iff.mp h).1]
      rcases Dot.choose_error hch with rfl | rfl <;> trivial
    | ok phase =>
      simp only [hch] at h
      cases h

theorem act_error (hs : AllStand w s.dots) (h : act w i s = .error e s') :
    e.OfMachine ∨ Halts w i e s s' := by
  unfold act at h
  rcases dotAt_bind_error h with rfl | ⟨d, hd, h⟩
  · exact .inl trivial
  cases hc : w.cell? d.pos with
  | none =>
    simp only [hc] at h
    cases h
  | some c =>
    simp only [hc] at h
    rcases bind_error_iff.mp h with h | ⟨_, t', -, h⟩
    · exact perform_error hd hc (hs.get hd).poised h
    · unfold settle at h
      rcases dotAt_bind_error h with rfl | ⟨d', -, h⟩
      · exact .inl trivial
      · split at h <;> cases h

theorem step_error (hs : AllStand w s.dots) (hd : s.dots[i]? = some d)
    (hc : w.cell? d.pos = some c) (h : step w i c s = .error e s') :
    e.OfMachine ∨
      ∃ phase, Halts w i e { s with dots := s.dots.set i { d with phase := phase } } s' := by
  unfold step at h
  rcases dotAt_bind_error h with rfl | ⟨d₁, hd₁, h⟩
  · exact .inl trivial
  cases hd.symm.trans hd₁
  have hi := (List.getElem?_eq_some_iff.mp hd).1
  cases hch : d.choose c with
  | error why =>
    simp only [hch] at h
    rcases bind_error_iff.mp h with hthrow | ⟨_, _, hthrow, -⟩
    · rw [← (throw_error_iff.mp hthrow).1]
      rcases Dot.choose_error hch with rfl | rfl <;> exact .inl trivial
    · exact absurd hthrow throw_ne_ok
  | ok phase =>
    simp only [hch] at h
    rcases bind_error_iff.mp h with hset | ⟨_, t, hset, h⟩
    · cases hset
    cases hset
    rcases dotAt_bind_error h with rfl | ⟨d₂, hd₂, h⟩
    · exact .inl trivial
    simp only [List.getElem?_set_self hi] at hd₂
    cases hd₂
    rcases bind_error_iff.mp h with hperform | ⟨_, t', -, h⟩
    · have hstop := perform_error (d := { d with phase := phase }) (List.getElem?_set_self hi) hc
        ((hs.get hd).choose hc hch) hperform
      exact hstop.imp_right fun hhalts => ⟨phase, hhalts⟩
    rcases dotAt_bind_error h with rfl | ⟨d₃, -, h⟩
    · exact .inl trivial
    -- Whether it is dead, lost or goes on, the rest completes.
    cases hdead : d₃.isDead with
    | true =>
      simp only [hdead, if_true] at h
      cases h
    | false =>
      simp only [hdead, Bool.false_eq_true, if_false] at h
      cases hlost : isLost w d₃ with
      | true =>
        simp only [hlost, if_true] at h
        cases h
      | false =>
        simp only [hlost, Bool.false_eq_true, if_false] at h
        cases h

end Turn

theorem Scene.tick_serves (w : World) : StopsFor Stop.OfService (Scene.tick w) := by
  intro s e s' h
  rcases bind_error_iff.mp h with htrace | ⟨_, t, -, h⟩
  · cases htrace
  rcases bind_error_iff.mp h with hget | ⟨_, t', -, h⟩
  · cases hget
  obtain ⟨c, hc⟩ := Scene.onConsole_error h
  exact Console.tick_stops _ _ _ _ _ hc

theorem Scene.tick_stops (w : World) : StopsFor Stop.OfMachine (Scene.tick w) :=
  (tick_serves w).mono fun _ => Stop.OfService.ofMachine

end DotPaths
