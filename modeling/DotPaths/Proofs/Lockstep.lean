import DotPaths.Proofs.Observer

/-! # Runs side by side

    Two runs may go through the same actions until one of them is cut short: it
    leaves off, while the other one goes on.  What the first has left must then go
    with all that the second still comes to.

    Apart from the console both runs do the same with the same dots.  So it is
    enough to look at what the console does: printing, reading, reporting, and
    ticking.
-/

namespace DotPaths

/-! ## Cutting short -/

section
variable {σ α β δ : Type}

/-- How two actions end of which the first may be cut short: in the same way and
    in states related by `R`; or the first has stopped in a state that goes by `D`
    with the one in which the second ends. -/
inductive CutShort (R : σ → σ → Prop) (D : Stop → σ → σ → Prop) :
    EStateM.Result Stop σ α → EStateM.Result Stop σ α → Prop where
  | ok {x : α} {s t : σ} : R s t → CutShort R D (.ok x s) (.ok x t)
  | error {e : Stop} {s t : σ} : R s t → CutShort R D (.error e s) (.error e t)
  | cut {e : Stop} {s : σ} {r : EStateM.Result Stop σ α} :
      D e s (endState r) → CutShort R D (.error e s) r

theorem CutShort.of_alike {R : σ → σ → Prop} {D : Stop → σ → σ → Prop}
    {r r' : EStateM.Result Stop σ α} (h : EndAlike R r r') : CutShort R D r r' := by
  cases r with
  | ok x s =>
    obtain ⟨t, rfl, hR⟩ := h.ok_left rfl
    exact .ok hR
  | error e s =>
    obtain ⟨t, rfl, hR⟩ := h.error_left rfl
    exact .error hR

/-- Related ends, or an end that goes with the other one. -/
theorem CutShort.endState_or {R : σ → σ → Prop} {D : Stop → σ → σ → Prop}
    {r r' : EStateM.Result Stop σ α} (h : CutShort R D r r') :
    (stop? r = stop? r' ∧ R (endState r) (endState r')) ∨
      ∃ e, stop? r = some e ∧ D e (endState r) (endState r') := by
  cases h with
  | ok hR => exact .inl ⟨rfl, hR⟩
  | error hR => exact .inl ⟨rfl, hR⟩
  | cut hD => exact .inr ⟨_, rfl, hD⟩

/-- From related states on, the action does the same in both until it is cut short
    in the first; and what was cut short before goes with its end in the second. -/
structure InStep (R : σ → σ → Prop) (D : Stop → σ → σ → Prop) (a : EStateM Stop σ α) : Prop where
  abreast : ∀ {s t}, R s t → CutShort R D (a s) (a t)
  lasting : ∀ {e s t}, D e s t → D e s (endState (a t))

namespace InStep

variable {R : σ → σ → Prop} {D : Stop → σ → σ → Prop} {a : EStateM Stop σ α}

theorem pure (x : α) : InStep R D (Pure.pure x) := ⟨fun h => .ok h, fun h => h⟩

theorem throw (e : Stop) : InStep R D (MonadExcept.throw e : EStateM Stop σ α) :=
  ⟨fun h => .error h, fun h => h⟩

theorem bind {f : α → EStateM Stop σ β} (h : InStep R D a) (hf : ∀ x, InStep R D (f x)) :
    InStep R D (a >>= f) := by
  constructor
  · intro s t hR
    have hab := h.abreast hR
    generalize hs : a s = r, ht : a t = r' at hab
    cases hab with
    | ok hR' =>
      rw [bind_of_ok hs, bind_of_ok ht]
      exact (hf _).abreast hR'
    | error hR' =>
      rw [bind_of_error hs, bind_of_error ht]
      exact .error hR'
    | cut hD =>
      rw [bind_of_error hs]
      rw [← ht] at hD
      exact .cut (endState_bind (fun x _ => (hf x).lasting) hD)
  · intro e s t hD
    exact endState_bind (fun x _ => (hf x).lasting) (h.lasting hD)

theorem forM {f : δ → EStateM Stop σ PUnit} (hf : ∀ x, InStep R D (f x)) (l : List δ) :
    InStep R D (l.forM f) := by
  induction l with
  | nil => exact pure _
  | cons x l ih =>
    simp only [List.forM_eq_forM, List.forM_cons] at ih ⊢
    exact (hf x).bind fun _ => ih

end InStep

end

/-! ## Actions without the console -/

open Scene

/-- The action has no part in what happens at the console: whatever two consoles
    have in common, they keep. -/
def Deaf {α : Type} (a : Act α) : Prop :=
  ∀ Q : Console → Console → Prop, Alike (AgreeBy Q) a a

/-- The dots at present. -/
def dotsNow : Act (List Dot) := do return (← get).dots

theorem dotsNow_deaf : Deaf dotsNow := by
  intro Q
  apply Alike.get
  intro s s' hs
  exact ⟨hs.1, hs⟩

theorem traceTick_deaf : Deaf traceTick := by
  intro Q
  apply Alike.modify
  intro s s' ⟨hdots, hconsole⟩
  constructor
  · split <;> split <;> exact hdots
  · split <;> split <;> exact hconsole

theorem choose_deaf (w : World) (i : Nat) : Deaf (Turn.choose w i) := by
  intro Q
  refine (dotAt_alikeBy i).bind fun d => ?_
  cases w.cell? d.pos with
  | none => exact setDot_alikeBy i _
  | some c =>
    simp only
    cases d.choose c with
    | error why => exact .throw why
    | ok phase => exact setDot_alikeBy i _

theorem settle_deaf (w : World) (i : Nat) : Deaf (Turn.settle w i) := by
  intro Q
  refine (dotAt_alikeBy i).bind fun d => ?_
  cases Turn.isLost w d with
  | true => exact setDot_alikeBy i _
  | false => exact .pure _

theorem goesOn_deaf (w : World) (i : Nat) : Deaf (Observed.goesOn w i) := by
  intro Q
  refine (dotAt_alikeBy i).bind fun d => ?_
  cases d.isDead with
  | true => exact .pure false
  | false =>
    cases Turn.isLost w d with
    | true => exact (setDot_alikeBy i _).bind fun _ => .pure false
    | false => exact .pure _

/-- Such an action leaves the console as it is. -/
theorem Deaf.console {α : Type} {a : Act α} (h : Deaf a) (s : Scene) :
    (endState (a s)).console = s.console := by
  -- That a console is the one there was before is kept like any relation.
  have hsame := h (fun _ c => c = s.console) s s ⟨rfl, rfl⟩
  cases ha : a s with
  | ok y t =>
    obtain ⟨t', ha', -, ht⟩ := hsame.ok_left ha
    rw [ha] at ha'
    cases ha'
    exact ht
  | error e t =>
    obtain ⟨t', ha', -, ht⟩ := hsame.error_left ha
    rw [ha] at ha'
    cases ha'
    exact ht

namespace Observed

/-! ## From turns to runs -/

section
variable {γ : Type} {o : Observer γ}

/-- The turn of a dot without the note about it. -/
theorem act_of_blind (h : o.IsBlind) (w : World) (i : Nat) :
    act o w i = (quietly (dotAt i) >>= fun d =>
      match w.cell? d.pos with
      | none => quietly (setDot i d.die)
      | some c => perform o c i (d.deed w c) >>= fun _ => quietly (Turn.settle w i)) := by
  unfold act
  congr 1
  funext d
  cases w.cell? d.pos with
  | none => rfl
  | some c =>
    simp only [note_eq_pure (h.stepped i _)]
    show (quietly get >>= fun _ => perform o c i (d.deed w c) >>= fun _ =>
      quietly (Turn.settle w i) >>= fun _ => pure ()) = _
    rw [bind_pure_unit]
    rfl

theorem step_of_blind (h : o.IsBlind) (w : World) (i : Nat) (c : Cell) :
    step o w i c = (quietly (dotAt i) >>= fun d =>
      match d.choose c with
      | .error why => throw why
      | .ok phase => quietly (setDot i { d with phase := phase }) >>= fun _ =>
        quietly (dotAt i) >>= fun d => perform o c i (d.deed w c) >>= fun _ =>
          quietly (goesOn w i)) := by
  unfold step
  congr 1
  funext d
  cases d.choose c with
  | error why => rfl
  | ok phase =>
    simp only [note_eq_pure (h.stepped i _)]
    congr 1
    funext _
    congr 1
    funext d
    show (quietly get >>= fun _ => perform o c i (d.deed w c) >>= fun _ =>
      quietly (goesOn w i) >>= fun goes => pure () >>= fun _ => pure goes) = _
    simp only [pure_bind, bind_pure]
    rfl

end

section
variable {γ : Type}

/-- What the console has to do for two runs to go side by side. -/
structure Lockstep (o : Observer γ) (R : Scene × γ → Scene × γ → Prop)
    (D : Stop → Scene × γ → Scene × γ → Prop) : Prop where
  blind : o.IsBlind
  moved : ∀ {α : Type} {b : Observed Scene γ α}, InStep R D b → InStep R D (noting o.moved b)
  deaf : ∀ {α : Type} {a : Act α}, Deaf a → InStep R D (quietly a)
  output : ∀ p, InStep R D (onConsole (output o p))
  read : ∀ byCode, InStep R D (onConsole (read o byCode))
  report : ∀ text, InStep R D (onConsole (report o text))
  tick : ∀ w, InStep R D (tick o w)

namespace Lockstep

variable {o : Observer γ} {R : Scene × γ → Scene × γ → Prop}
  {D : Stop → Scene × γ → Scene × γ → Prop} (h : Lockstep o R D)

include h

theorem dotAt (i : Nat) : InStep R D (quietly (Scene.dotAt i)) := h.deaf fun _ => dotAt_alikeBy i

theorem setDot (i : Nat) (d : Dot) : InStep R D (quietly (Scene.setDot i d)) :=
  h.deaf fun _ => setDot_alikeBy i d

theorem addDots (new : List Dot) : InStep R D (quietly (Scene.addDots new)) :=
  h.deaf fun _ => addDots_alikeBy new

theorem changeDots (f : List Dot → List Dot) :
    InStep R D (quietly (modify fun s => { s with dots := f s.dots })) :=
  h.deaf fun _ => changeDots_alikeBy f

/-- Both runs look at the same dots. -/
theorem look_dots {α : Type} {f : List Dot → Observed Scene γ α} (hf : ∀ dots, InStep R D (f dots)) :
    InStep R D (quietly get >>= fun s => f s.dots) := by
  have hlook : (quietly get >>= fun s => f s.dots) = (quietly dotsNow >>= f) := rfl
  rw [hlook]
  exact (h.deaf dotsNow_deaf).bind hf

theorem perform (c : Cell) (i : Nat) (deed : Deed) : InStep R D (perform o c i deed) := by
  cases deed with
  | become d => exact h.setDot i d
  | print p before after =>
    exact (h.setDot i before).bind fun _ => (h.output p).bind fun _ => h.setDot i after
  | read byCode after => exact (h.read byCode).bind fun n => h.setDot i (after n)
  | branch new d =>
    exact h.deaf fun _ => (addDots_alikeBy new).bind fun _ => setDot_alikeBy i d
  | meet m => exact h.deaf fun _ => Meeting.perform_alikeBy c i m
  | stop d why => exact h.deaf fun _ => (setDot_alikeBy i d).bind fun _ => .throw why

theorem act (w : World) (i : Nat) : InStep R D (act o w i) := by
  rw [act_of_blind h.blind]
  refine (h.dotAt i).bind fun d => ?_
  cases w.cell? d.pos with
  | none => exact h.setDot i d.die
  | some c => exact (h.perform c i _).bind fun _ => h.deaf (settle_deaf w i)

theorem step (w : World) (i : Nat) (c : Cell) : InStep R D (step o w i c) := by
  rw [step_of_blind h.blind]
  refine (h.dotAt i).bind fun d => ?_
  cases d.choose c with
  | error why => exact .throw why
  | ok phase =>
    refine (h.setDot i _).bind fun _ => (h.dotAt i).bind fun d => ?_
    exact (h.perform c i _).bind fun _ => h.deaf (goesOn_deaf w i)

/-- What a dot that runs on does after the tick. -/
theorem runOn_next {w : World} {i fuel : Nat} (hfuel : ∀ past, InStep R D (runOn o w i fuel past))
    (past : List Pos) :
    InStep R D (quietly (Scene.dotAt i) >>= fun d =>
      if past.contains d.pos then pure ()
      else
        match w.cell? d.pos with
        | none => noting o.moved (quietly (Scene.setDot i d.die))
        | some c => noting o.moved (Observed.step o w i c) >>= fun goes =>
          if goes then runOn o w i fuel (d.pos :: past) else pure ()) := by
  refine (h.dotAt i).bind fun d => ?_
  cases past.contains d.pos with
  | true => exact .pure _
  | false =>
    cases w.cell? d.pos with
    | none => exact h.moved (h.setDot i d.die)
    | some c =>
      refine (h.moved (h.step w i c)).bind fun goes => ?_
      cases goes with
      | true => exact hfuel _
      | false => exact .pure _

theorem runOn (w : World) (i fuel : Nat) (past : List Pos) :
    InStep R D (runOn o w i fuel past) := by
  induction fuel generalizing past with
  | zero => exact .pure _
  | succ fuel ih => exact (h.tick w).bind fun _ => h.runOn_next ih past

theorem eraseDot (i : Nat) : InStep R D (eraseDot o i) := by
  unfold Observed.eraseDot
  rw [note_eq_pure fun _ => h.blind.erased i]
  exact (InStep.pure ()).bind fun _ => h.changeDots (List.eraseIdx · i)

theorem turns (w : World) (n i : Nat) : InStep R D (turns o w n i) := by
  induction n generalizing i with
  | zero => exact .pure _
  | succ n ih =>
    refine (h.runOn w i _ _).bind fun _ => (h.dotAt i).bind fun d => ?_
    cases d.isDead with
    | true => exact (h.eraseDot i).bind fun _ => ih i
    | false => exact ih (i + 1)

theorem moveAll (w : World) (n : Nat) : InStep R D (moveAll o w n) := by
  refine h.moved (InStep.bind (h.deaf fun Q => ?_) fun _ => .forM (h.act w) _)
  exact .forM (fun i => choose_deaf w i Q) _

theorem sweepDots (n : Nat) : InStep R D (sweepDots o n) := by
  unfold Observed.sweepDots
  rw [note_eq_pure fun s => h.blind.swept n (Scene.dots s)]
  exact (InStep.pure ()).bind fun _ => h.changeDots (Machine.sweep n)

theorem parallelTick (w : World) : InStep R D (parallelTick o w) :=
  h.look_dots (f := fun dots => Observed.moveAll o w dots.length >>= fun _ =>
    Observed.sweepDots o dots.length >>= fun _ => Observed.tick o w) fun _ =>
      (h.moveAll w _).bind fun _ => (h.sweepDots _).bind fun _ => h.tick w

theorem tickBy (w : World) (parallel : Bool) : InStep R D (tickBy o w parallel) := by
  cases parallel with
  | true => exact h.parallelTick w
  | false => exact h.look_dots fun dots => h.turns w dots.length 0

theorem loop (w : World) (parallel : Bool) (fuel : Nat) : InStep R D (loop o w parallel fuel) := by
  induction fuel with
  | zero => exact .pure _
  | succ fuel ih =>
    have hrest := (h.tickBy w parallel).bind fun _ => ih
    refine h.look_dots (f := fun dots => if dots.isEmpty then throw Stop.exit >>= fun _ : PUnit =>
        Observed.tickBy o w parallel >>= fun _ => Observed.loop o w parallel fuel
      else Observed.tickBy o w parallel >>= fun _ => Observed.loop o w parallel fuel) fun dots => ?_
    cases dots.isEmpty with
    | true => exact (InStep.throw Stop.exit).bind fun _ => hrest
    | false => exact hrest

theorem setUp (w : World) : InStep R D (setUp o w) := by
  refine (h.changeDots fun _ => []).bind fun _ => InStep.forM (fun p => ?_) _
  refine InStep.bind (h.deaf fun _ => orFail_alike _) fun phase => ?_
  simp only
  cases Option.orElse none fun _ => Dot.findDirection? w (Machine.newDot p).pos with
  | some dir => exact h.addDots _
  | none => exact (h.report _).bind fun _ => h.addDots _

theorem course (w : World) (parallel : Bool) (fuel : Nat) :
    InStep R D (course o w parallel fuel) :=
  (h.setUp w).bind fun _ => h.loop w parallel fuel

end Lockstep

end

/-! ## Consoles side by side -/

section
variable {γ α : Type} {Q : γ → γ → Console → Console → Prop}
  {E : Stop → Scene × γ → γ → Console → Prop}

/-- The scenes have the same dots, and their consoles are related in view of what
    has been noted in both runs. -/
def Alongside (Q : γ → γ → Console → Console → Prop) (x y : Scene × γ) : Prop :=
  AgreeBy (Q x.2 y.2) x.1 y.1

/-- What one run has left goes with the notes and the console of the other. -/
def Outlasts (E : Stop → Scene × γ → γ → Console → Prop) (e : Stop) (x y : Scene × γ) : Prop :=
  E e x y.2 y.1.console

/-- Actions that end alike on both sides. -/
theorem cutShort_quietly {a : Act α} {x y : Scene × γ} {D : Stop → Scene × γ → Scene × γ → Prop}
    (h : EndAlike (AgreeBy (Q x.2 y.2)) (a x.1) (a y.1)) :
    CutShort (Alongside Q) D (quietly a x) (quietly a y) := by
  unfold quietly
  cases ha : a x.1 with
  | ok r t =>
    obtain ⟨t', ha', ht⟩ := h.ok_left ha
    rw [ha']
    exact .ok ht
  | error e t =>
    obtain ⟨t', ha', ht⟩ := h.error_left ha
    rw [ha']
    exact .error ht

/-- What is done without the console is done in both runs. -/
theorem deaf_inStep {a : Act α} (h : Deaf a) :
    InStep (Alongside Q) (Outlasts E) (quietly a) := by
  constructor
  · intro x y hxy
    exact cutShort_quietly (h (Q x.2 y.2) x.1 y.1 hxy)
  · intro e x y hE
    show E e x (endState (quietly a y)).2 (endState (quietly a y)).1.console
    rw [endState_quietly, h.console]
    exact hE

/-- So is what both consoles do alike. -/
theorem alike_inStep {a : ConsoleAct α} (h : ∀ g g', Alike (Q g g') a a)
    (hE : ∀ {e x g c}, E e x g c → E e x g (endState (a c))) :
    InStep (Alongside Q) (Outlasts E) (quietly (Scene.onConsole a)) := by
  constructor
  · intro x y hxy
    exact cutShort_quietly (Scene.onConsole_alikeBy (h x.2 y.2) x.1 y.1 hxy)
  · intro e x y hleft
    show E e x (endState (quietly (Scene.onConsole a) y)).2
      (endState (quietly (Scene.onConsole a) y)).1.console
    rw [endState_quietly, endState_onConsole]
    exact hE hleft

/-- And what the first console may cut short. -/
theorem onConsole_inStep {F : Stop → Console × γ → γ → Console → Prop} {b : Observed Console γ α}
    (h : InStep (fun x y => Q x.2 y.2 x.1 y.1) (fun e x y => F e x y.2 y.1) b) :
    InStep (Alongside Q) (Outlasts fun e x => F e (x.1.console, x.2)) (onConsole b) := by
  constructor
  · rintro ⟨s, g⟩ ⟨s', g'⟩ ⟨hdots, hQ⟩
    have hb := h.abreast (s := (s.console, g)) (t := (s'.console, g')) hQ
    unfold Observed.onConsole
    generalize b (s.console, g) = r, b (s'.console, g') = r' at hb
    cases hb with
    | ok hQ => exact .ok ⟨hdots, hQ⟩
    | error hQ => exact .error ⟨hdots, hQ⟩
    | cut hF =>
      refine .cut ?_
      cases r' with
      | ok y c => exact hF
      | error e c => exact hF
  · rintro e x ⟨s', g'⟩ hleft
    have hF := h.lasting (e := e) (s := (x.1.console, x.2)) (t := (s'.console, g')) hleft
    show F e (x.1.console, x.2) (endState (Observed.onConsole b (s', g'))).2
      (endState (Observed.onConsole b (s', g'))).1.console
    unfold Observed.onConsole
    generalize b (s'.console, g') = r at hF
    cases r with
    | ok y c => exact hF
    | error e c => exact hF

theorem quietly_inStep {F : Stop → Console × γ → γ → Console → Prop} {a : ConsoleAct α}
    (h : ∀ g g', InStep (Q g g') (fun e c c' => F e (c, g) g' c') a) :
    InStep (Alongside Q) (Outlasts fun e x => F e (x.1.console, x.2))
      (quietly (Scene.onConsole a)) := by
  rw [← onConsole_eq_quietly (.quietly a) (.quietly a)]
  refine onConsole_inStep ⟨?_, ?_⟩
  · rintro ⟨c, g⟩ ⟨c', g'⟩ hQ
    have ha := (h g g').abreast hQ
    unfold quietly
    generalize a c = r, a c' = r' at ha
    cases ha with
    | ok hQ => exact .ok hQ
    | error hQ => exact .error hQ
    | cut hF =>
      refine .cut ?_
      cases r' with
      | ok y t => exact hF
      | error e t => exact hF
  · rintro e ⟨c, g⟩ ⟨c', g'⟩ hF
    rw [endState_quietly]
    exact (h g g').lasting hF

/-- Two runs go side by side if their consoles do, as far as nothing else is noted
    than what they are asked for. -/
theorem lockstep_of_console {o : Observer γ} {F : Stop → Console × γ → γ → Console → Prop}
    (hblind : o.IsBlind) (hmoved : ∀ s g, o.moved s g = g) (hticked : ∀ s g, o.ticked s g = g)
    (houtput : ∀ p, InStep (fun x y => Q x.2 y.2 x.1 y.1) (fun e x y => F e x y.2 y.1) (output o p))
    (hread : ∀ byCode,
      InStep (fun x y => Q x.2 y.2 x.1 y.1) (fun e x y => F e x y.2 y.1) (read o byCode))
    (hreport : ∀ text,
      InStep (fun x y => Q x.2 y.2 x.1 y.1) (fun e x y => F e x y.2 y.1) (report o text))
    (htick : ∀ w dots,
      InStep (fun x y => Q x.2 y.2 x.1 y.1) (fun e x y => F e x y.2 y.1) (tickConsole o w dots)) :
    Lockstep o (Alongside Q) (Outlasts fun e x => F e (x.1.console, x.2)) where
  blind := hblind
  moved h := by
    rw [noting_eq_self hmoved]
    exact h
  deaf := deaf_inStep
  output p := onConsole_inStep (houtput p)
  read byCode := onConsole_inStep (hread byCode)
  report text := onConsole_inStep (hreport text)
  tick w := by
    unfold tick
    rw [note_eq_pure hticked]
    refine (InStep.pure ()).bind fun _ => (deaf_inStep traceTick_deaf).bind fun _ => ?_
    -- Both consoles are told of the same dots.
    exact (deaf_inStep dotsNow_deaf).bind fun dots => onConsole_inStep (htick w (positions dots))

end

end Observed

end DotPaths
