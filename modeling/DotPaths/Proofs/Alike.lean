import DotPaths.Machine.Turn
import DotPaths.Proofs.Scene

/-! # Ending alike

    Two actions end alike if both complete with the same answer or both stop for
    the same reason, and leave states that are related.  A composite action is
    taken apart here as in the laws of actions, but on two sides at once.

    The relation that matters is between scenes with the same dots whose
    consoles differ at most in the number of ticks that they have counted.  The
    step of a dot does not see the difference.
-/

namespace DotPaths

/-! ## Related results -/

section related
variable {ε σ α β : Type} {R : σ → σ → Prop}

/-- Both complete with the same answer or both stop for the same reason, and
    the states are related. -/
def EndAlike (R : σ → σ → Prop) : EStateM.Result ε σ α → EStateM.Result ε σ α → Prop
  | .ok x s, .ok y s' => x = y ∧ R s s'
  | .error e s, .error f s' => e = f ∧ R s s'
  | _, _ => False

/-- From related states the two actions end alike. -/
def Alike (R : σ → σ → Prop) (a b : EStateM ε σ α) : Prop :=
  ∀ s s', R s s' → EndAlike R (a s) (b s')

theorem EndAlike.bind {a b : EStateM ε σ α} {f g : α → EStateM ε σ β} {s s' : σ}
    (h : EndAlike R (a s) (b s')) (hf : ∀ x, Alike R (f x) (g x)) :
    EndAlike R ((a >>= f) s) ((b >>= g) s') := by
  show EndAlike R (EStateM.bind a f s) (EStateM.bind b g s')
  unfold EStateM.bind
  cases ha : a s with
  | ok x t =>
    cases hb : b s' with
    | ok y t' =>
      rw [ha, hb] at h
      obtain ⟨rfl, ht⟩ := h
      exact hf x t t' ht
    | error e t' =>
      rw [ha, hb] at h
      exact h.elim
  | error e t =>
    cases hb : b s' with
    | ok y t' =>
      rw [ha, hb] at h
      exact h.elim
    | error e' t' =>
      rw [ha, hb] at h
      exact h

theorem EndAlike.ok_left {a b : EStateM.Result ε σ α} {x : α} {s : σ} (h : EndAlike R a b)
    (ha : a = .ok x s) : ∃ s', b = .ok x s' ∧ R s s' := by
  subst ha
  cases b with
  | ok y s' =>
    obtain ⟨rfl, hs⟩ := h
    exact ⟨s', rfl, hs⟩
  | error e s' => exact h.elim

theorem EndAlike.error_left {a b : EStateM.Result ε σ α} {e : ε} {s : σ} (h : EndAlike R a b)
    (ha : a = .error e s) : ∃ s', b = .error e s' ∧ R s s' := by
  subst ha
  cases b with
  | ok y s' => exact h.elim
  | error e' s' =>
    obtain ⟨rfl, hs⟩ := h
    exact ⟨s', rfl, hs⟩

namespace Alike

theorem pure (x : α) : Alike R (Pure.pure x : EStateM ε σ α) (Pure.pure x) := by
  intro s s' hs
  exact ⟨rfl, hs⟩

theorem throw (e : ε) : Alike R (MonadExcept.throw e : EStateM ε σ α) (MonadExcept.throw e) := by
  intro s s' hs
  exact ⟨rfl, hs⟩

theorem modify {f : σ → σ} (hf : ∀ s s', R s s' → R (f s) (f s')) :
    Alike R (modify f : EStateM ε σ PUnit) (modify f) := by
  intro s s' hs
  exact ⟨rfl, hf s s' hs⟩

theorem bind {a b : EStateM ε σ α} {f g : α → EStateM ε σ β} (h : Alike R a b)
    (hf : ∀ x, Alike R (f x) (g x)) : Alike R (a >>= f) (b >>= g) := by
  intro s s' hs
  exact (h s s' hs).bind hf

theorem forM {γ : Type} {f g : γ → EStateM ε σ PUnit} (hf : ∀ x, Alike R (f x) (g x))
    (l : List γ) : Alike R (l.forM f) (l.forM g) := by
  induction l with
  | nil => exact .pure _
  | cons x l ih =>
    simp only [List.forM_eq_forM, List.forM_cons] at ih ⊢
    exact (hf x).bind fun _ => ih

/-- Actions that begin by looking at the whole state. -/
theorem get {f g : σ → EStateM ε σ β} (hf : ∀ s s', R s s' → EndAlike R (f s s) (g s' s')) :
    Alike R (MonadState.get >>= f) (MonadState.get >>= g) := by
  intro s s' hs
  exact hf s s' hs

end Alike

end related

/-! ## Consoles -/

namespace Console

/-- The console counts no ticks down, and it shows nothing between two steps. -/
def IsCalm (c : Console) : Prop :=
  c.ticksLeft = none ∧ ∀ d, c.service = .terminal d → d.view = .off

/-- The consoles are calm and differ at most in the ticks that they have
    counted. -/
structure Agree (c c' : Console) : Prop where
  calm : c.IsCalm
  same : ∃ n, c' = { c with ticks := n }

namespace Agree

variable {c c' : Console}

theorem symm (h : c.Agree c') : c'.Agree c := by
  obtain ⟨n, rfl⟩ := h.same
  exact ⟨h.calm, c.ticks, rfl⟩

theorem trans {c'' : Console} (h : c.Agree c') (h' : c'.Agree c'') : c.Agree c'' := by
  obtain ⟨n, rfl⟩ := h.same
  obtain ⟨k, rfl⟩ := h'.same
  exact ⟨h.calm, k, rfl⟩

theorem service (h : c.Agree c') : c'.service = c.service := by
  obtain ⟨n, hn⟩ := h.same
  rw [hn]

theorem outputsLeft (h : c.Agree c') : c'.outputsLeft = c.outputsLeft := by
  obtain ⟨n, hn⟩ := h.same
  rw [hn]

theorem input (h : c.Agree c') : c'.input = c.input := by
  obtain ⟨n, hn⟩ := h.same
  rw [hn]

/-- Consoles that agree still do after the same change, if it leaves the
    service, the ticks and their limit alone. -/
theorem update (h : c.Agree c') (f : Console → Console)
    (hservice : (f c).service = c.service) (hleft : (f c).ticksLeft = c.ticksLeft)
    (hticks : ∀ n, f { c with ticks := n } = { f c with ticks := n }) : (f c).Agree (f c') := by
  obtain ⟨n, hn⟩ := h.same
  refine ⟨⟨hleft.trans h.calm.1, ?_⟩, n, ?_⟩
  · rw [hservice]
    exact h.calm.2
  · rw [hn]
    exact hticks n

end Agree

/-- The relation lets two consoles print and read the same. -/
structure Fair (Q : Console → Console → Prop) : Prop where
  outputsLeft : ∀ {c c'}, Q c c' → c'.outputsLeft = c.outputsLeft
  input : ∀ {c c'}, Q c c' → c'.input = c.input
  count : ∀ {c c'} (left : Option Nat), Q c c' →
    Q { c with outputsLeft := left } { c' with outputsLeft := left }
  read : ∀ {c c'} (rest : List Char), Q c c' → Q { c with input := rest } { c' with input := rest }
  record : ∀ {c c'} (text : CodeText), Q c c' →
    Q { c with texts := text :: c.texts } { c' with texts := text :: c'.texts }

theorem render_alike {Q : Console → Console → Prop} (p : Payload) :
    Alike Q (render p) (render p) := by
  unfold render
  cases p.render with
  | ok s => exact .pure s
  | error f => exact .throw _

/-- What is read depends on the input alone. -/
theorem readInput_alike {Q : Console → Console → Prop}
    (hinput : ∀ {c c'}, Q c c' → c'.input = c.input)
    (hread : ∀ {c c'} (rest : List Char), Q c c' →
      Q { c with input := rest } { c' with input := rest }) (byCode : Bool) :
    Alike Q (readInput byCode) (readInput byCode) := by
  have hset : ∀ {c c' : Console} (rest : List Char), Q c c' →
      EndAlike Q ((set { c with input := rest } : ConsoleAct PUnit) c)
        ((set { c' with input := rest } : ConsoleAct PUnit) c') := by
    intro c c' rest hc
    exact ⟨rfl, hread rest hc⟩
  have hline : Alike Q takeLine takeLine := by
    apply Alike.get
    intro c c' hc
    rw [hinput hc]
    cases Text.takeLine c.input with
    | none => exact Alike.throw _ c c' hc
    | some r => exact (hset r.2 hc).bind fun _ => .pure _
  have hchar : Alike Q takeChar takeChar := by
    apply Alike.get
    intro c c' hc
    rw [hinput hc]
    cases c.input with
    | nil => exact Alike.pure _ c c' hc
    | cons ch rest => exact (hset rest hc).bind fun _ => .pure _
  unfold readInput
  cases byCode with
  | true =>
    rw [if_pos rfl]
    refine hchar.bind fun ch => ?_
    cases ch with
    | none => exact .pure _
    | some ch => exact .pure _
  | false =>
    rw [if_neg (by simp)]
    exact hline.bind fun line => .pure _

/-- What is asked before something is read from the terminal `d`. -/
def questions (d : Display) (byCode : Bool) : List Event :=
  if d.interactive && !byCode then [.prompt question] else []

theorem askInput_eq (d : Display) (byCode : Bool) (c : Console) :
    askInput d byCode c = readInput byCode { c with events := questions d byCode ++ c.events } := by
  unfold askInput questions
  split <;> rfl

/-- A question makes no difference to what is read. -/
theorem askInput_alike {Q : Console → Console → Prop} {d d' : Display} {byCode : Bool}
    (hinput : ∀ {c c'}, Q c c' → c'.input = c.input)
    (hread : ∀ {c c'} (rest : List Char), Q c c' →
      Q { c with input := rest } { c' with input := rest })
    (hask : ∀ {c c'}, Q c c' → Q { c with events := questions d byCode ++ c.events }
      { c' with events := questions d byCode ++ c'.events })
    (hd : d'.interactive = d.interactive) : Alike Q (askInput d byCode) (askInput d' byCode) := by
  intro c c' h
  have hsame : questions d' byCode = questions d byCode := by
    unfold questions
    rw [hd]
  rw [askInput_eq, askInput_eq, hsame]
  exact readInput_alike hinput hread byCode _ _ (hask h)

namespace Fair

variable {Q : Console → Console → Prop} (hQ : Fair Q)

include hQ

theorem record_alike (text : CodeText) : Alike Q (Console.record text) (Console.record text) := by
  apply Alike.modify
  intro c c' hc
  exact hQ.record text hc

theorem countOutput_alike : Alike Q countOutput countOutput := by
  apply Alike.get
  intro c c' hc
  rw [hQ.outputsLeft hc]
  generalize countDown c.outputsLeft = r
  obtain ⟨left, reached⟩ := r
  -- Setting the count keeps the relation; then both stop or neither does.
  have hset : EndAlike Q ((set { c with outputsLeft := left } : ConsoleAct PUnit) c)
      ((set { c' with outputsLeft := left } : ConsoleAct PUnit) c') :=
    ⟨rfl, hQ.count left hc⟩
  refine hset.bind fun _ => ?_
  cases reached with
  | true => exact .throw _
  | false => exact .pure _

theorem readInput_alike (byCode : Bool) : Alike Q (readInput byCode) (readInput byCode) :=
  Console.readInput_alike hQ.input hQ.read byCode

end Fair

theorem Agree.fair : Fair Agree where
  outputsLeft := Agree.outputsLeft
  input := Agree.input
  count left hc := hc.update (fun c => { c with outputsLeft := left }) rfl rfl fun _ => rfl
  read rest hc := hc.update (fun c => { c with input := rest }) rfl rfl fun _ => rfl
  record text hc :=
    hc.update (fun c => { c with texts := text :: c.texts }) rfl rfl fun _ => rfl

theorem emit_alike (e : Event) : Alike Agree (emit e) (emit e) := by
  apply Alike.modify
  intro c c' hc
  exact hc.update (fun c => { c with events := e :: c.events }) rfl rfl fun _ => rfl

theorem output_alike (p : Payload) : Alike Agree (output p) (output p) := by
  apply Alike.get
  intro c c' hc
  rw [hc.service]
  cases hservice : c.service with
  | bare => exact Alike.throw _ c c' hc
  | recorder => exact (render_alike p).bind Agree.fair.record_alike c c' hc
  | terminal d =>
    have hview := hc.calm.2 d hservice
    have hdisplay : ∀ text, Alike Agree (display d text) (display d text) := by
      intro text
      unfold display write
      rw [hview]
      split
      · exact .pure _
      · cases text.isEncodable with
        | true => exact emit_alike _
        | false => exact .throw _
    refine Alike.bind (render_alike p) (fun text => ?_) c c' hc
    refine Agree.fair.countOutput_alike.bind fun _ => ?_
    exact (Agree.fair.record_alike text).bind fun _ => hdisplay text

theorem read_alike (byCode : Bool) : Alike Agree (read byCode) (read byCode) := by
  apply Alike.get
  intro c c' hc
  rw [hc.service]
  cases hservice : c.service with
  | bare => exact Alike.throw _ c c' hc
  | recorder => exact Agree.fair.readInput_alike byCode c c' hc
  | terminal d =>
    have hview : ¬ d.view = .windowed := by
      rw [hc.calm.2 d hservice]
      simp
    simp only [if_neg hview]
    refine askInput_alike Agree.fair.input Agree.fair.read (fun h => ?_) rfl c c' hc
    exact h.update (fun c => { c with events := questions d byCode ++ c.events }) rfl rfl fun _ => rfl

theorem report_alike (text : String) : Alike Agree (report text) (report text) := by
  apply Alike.get
  intro c c' hc
  rw [hc.service]
  cases c.service with
  | bare => exact Alike.throw _ c c' hc
  | recorder =>
    apply Alike.modify _ c c' hc
    intro c c' hc
    exact hc.update (fun c => { c with reports := text :: c.reports }) rfl rfl fun _ => rfl
  | terminal d => exact (output_alike _).bind (fun _ => .throw _) c c' hc

theorem finish_alike : Alike Agree finish finish := by
  apply Alike.get
  intro c c' hc
  rw [hc.service]
  cases hservice : c.service with
  | bare => exact Alike.throw _ c c' hc
  | recorder => exact Agree.fair.record_alike _ c c' hc
  | terminal d =>
    have hview : ¬ d.view = .windowed := by
      rw [hc.calm.2 d hservice]
      simp
    simp only [if_neg hview]
    exact Alike.pure _ c c' hc

/-- A tick of a calm console is counted, and nothing else happens. -/
theorem tick_calm {w : World} {dots : List Pos} {c : Console} (h : c.IsCalm) :
    ∃ n, tick w dots c = .ok () { c with ticks := n } := by
  obtain ⟨service, input, keys, typed, ticksLeft, outputsLeft, events, texts, reports, ticks, log,
    padRow, padColumn⟩ := c
  obtain ⟨rfl, hview⟩ : ticksLeft = none ∧ ∀ d, service = .terminal d → d.view = .off := h
  cases service with
  | bare => exact ⟨ticks, rfl⟩
  | recorder => exact ⟨ticks + 1, rfl⟩
  | terminal d =>
    obtain ⟨view, silent, columns, lines, viewLines, autostep, interactive⟩ := d
    obtain rfl : view = .off := hview _ rfl
    exact ⟨ticks + 1, rfl⟩

end Console

/-! ## Scenes -/

namespace Scene

/-- The scenes have the same dots, and their consoles are related. -/
def AgreeBy (Q : Console → Console → Prop) (s s' : Scene) : Prop :=
  s.dots = s'.dots ∧ Q s.console s'.console

section related
variable {Q : Console → Console → Prop}

theorem onConsole_alikeBy {α : Type} {a b : ConsoleAct α} (h : Alike Q a b) :
    Alike (AgreeBy Q) (onConsole a) (onConsole b) := by
  intro s s' ⟨hdots, hconsole⟩
  have hab := h s.console s'.console hconsole
  unfold onConsole
  cases ha : a s.console with
  | ok x c =>
    obtain ⟨c', hb, hc⟩ := hab.ok_left ha
    rw [hb]
    exact ⟨rfl, hdots, hc⟩
  | error e c =>
    obtain ⟨c', hb, hc⟩ := hab.error_left ha
    rw [hb]
    exact ⟨rfl, hdots, hc⟩

theorem dotAt_alikeBy (i : Nat) : Alike (AgreeBy Q) (dotAt i) (dotAt i) := by
  apply Alike.get
  intro s s' ⟨hdots, hconsole⟩
  rw [← hdots]
  cases s.dots[i]? with
  | none => exact ⟨rfl, hdots, hconsole⟩
  | some d => exact ⟨rfl, hdots, hconsole⟩

/-- The same change of the dots on both sides. -/
theorem changeDots_alikeBy (f : List Dot → List Dot) :
    Alike (AgreeBy Q) (modify fun s => { s with dots := f s.dots } : Act PUnit)
      (modify fun s => { s with dots := f s.dots }) := by
  apply Alike.modify
  intro s s' ⟨hdots, hconsole⟩
  exact ⟨congrArg f hdots, hconsole⟩

theorem setDot_alikeBy (i : Nat) (d : Dot) : Alike (AgreeBy Q) (setDot i d) (setDot i d) :=
  changeDots_alikeBy (List.set · i d)

theorem addDots_alikeBy (new : List Dot) : Alike (AgreeBy Q) (addDots new) (addDots new) :=
  changeDots_alikeBy (· ++ new)

end related

/-- The scenes have the same dots, and their consoles agree. -/
def Agree (s s' : Scene) : Prop :=
  s.dots = s'.dots ∧ s.console.Agree s'.console

theorem onConsole_alike {α : Type} {a b : ConsoleAct α} (h : Alike Console.Agree a b) :
    Alike Agree (onConsole a) (onConsole b) :=
  onConsole_alikeBy h

theorem dotAt_alike (i : Nat) : Alike Agree (dotAt i) (dotAt i) :=
  dotAt_alikeBy i

theorem setDot_alike (i : Nat) (d : Dot) : Alike Agree (setDot i d) (setDot i d) :=
  setDot_alikeBy i d

theorem addDots_alike (new : List Dot) : Alike Agree (addDots new) (addDots new) :=
  addDots_alikeBy new

theorem orFail_alike {α : Type} {R : Scene → Scene → Prop} (x : Except Fault α) :
    Alike R (orFail x) (orFail x) := by
  cases x with
  | ok a => exact .pure a
  | error f => exact .throw _

/-- Tracing changes neither the dots nor the console. -/
theorem tick_eq (w : World) (s : Scene) :
    ∃ s' : Scene, s'.dots = s.dots ∧ s'.console = s.console ∧
      tick w s = onConsole (Console.tick w (positions s.dots)) s' := by
  have htick : ∀ s' : Scene, s'.dots = s.dots → traceTick s = .ok () s' →
      tick w s = onConsole (Console.tick w (positions s.dots)) s' := by
    intro s' hdots htrace
    have hget : tick w s = EStateM.bind traceTick
        (fun _ s => onConsole (Console.tick w (positions s.dots)) s) s := rfl
    rw [hget]
    unfold EStateM.bind
    simp only [htrace, hdots]
  by_cases hcounted : (isCounted s.console && 0 < s.traceLeft) = true
  · refine ⟨{ s with trace := s.dots :: s.trace, traceLeft := s.traceLeft - 1 }, rfl, rfl, ?_⟩
    exact htick _ rfl (congrArg (EStateM.Result.ok ()) (if_pos hcounted))
  · exact ⟨s, rfl, rfl, htick s rfl (congrArg (EStateM.Result.ok ()) (if_neg hcounted))⟩

/-- A tick on a calm console always completes, and only the count of ticks
    changes. -/
theorem tick_agree (w : World) {s s' : Scene} (h : s.Agree s') :
    ∃ t, tick w s = .ok () t ∧ t.Agree s' := by
  obtain ⟨hdots, hconsole⟩ := h
  obtain ⟨s₁, hdots₁, hconsole₁, htick⟩ := tick_eq w s
  obtain ⟨n, hn⟩ : ∃ n, Console.tick w (positions s.dots) s.console =
      .ok () { s.console with ticks := n } := Console.tick_calm hconsole.calm
  refine ⟨{ s₁ with console := { s.console with ticks := n } }, ?_, hdots₁.trans hdots, ?_⟩
  · rw [htick, onConsole, hconsole₁, hn]
  · obtain ⟨k, hk⟩ := hconsole.same
    exact ⟨hconsole.calm, k, hk⟩

end Scene

/-! ## Steps -/

open Scene

theorem Meeting.perform_alikeBy {Q : Console → Console → Prop} (c : Cell) (i : Nat) (m : Meeting) :
    Alike (AgreeBy Q) (Meeting.perform c i m) (Meeting.perform c i m) := by
  refine (dotAt_alikeBy i).bind fun d => Alike.get ?_
  intro s s' hs
  have hdots := hs.1
  -- Both sides look through the same list, so they find the same partner.
  rw [← hdots]
  cases (if m.master then Meeting.oldest? d.pos false s.dots else none) with
  | none => exact setDot_alikeBy _ _ s s' hs
  | some j =>
    by_cases hfirst : Meeting.oldest? d.pos true s.dots = some i
    · simp only [hfirst, if_true]
      refine Alike.bind (dotAt_alikeBy j) (fun o => ?_) s s' hs
      refine (orFail_alike _).bind fun r => ?_
      exact (setDot_alikeBy _ _).bind fun _ => setDot_alikeBy _ _
    · simp only [hfirst, if_false]
      exact setDot_alikeBy _ _ s s' hs

theorem Meeting.perform_alike (c : Cell) (i : Nat) (m : Meeting) :
    Alike Agree (Meeting.perform c i m) (Meeting.perform c i m) :=
  Meeting.perform_alikeBy c i m

namespace Turn

theorem perform_alike (c : Cell) (i : Nat) (deed : Deed) :
    Alike Agree (perform c i deed) (perform c i deed) := by
  cases deed with
  | become d => exact setDot_alike i d
  | print p before after =>
    refine (setDot_alike i before).bind fun _ => ?_
    refine (onConsole_alike (Console.output_alike p)).bind fun _ => ?_
    exact setDot_alike i after
  | read byCode after =>
    refine (onConsole_alike (Console.read_alike byCode)).bind fun n => ?_
    exact setDot_alike i (after n)
  | branch new d => exact (addDots_alike new).bind fun _ => setDot_alike i d
  | meet m => exact Meeting.perform_alike c i m
  | stop d why => exact (setDot_alike i d).bind fun _ => .throw why

/-- A step does not see how many ticks the console has counted. -/
theorem step_alike (w : World) (i : Nat) (c : Cell) :
    Alike Agree (step w i c) (step w i c) := by
  refine (dotAt_alike i).bind fun d => ?_
  cases d.choose c with
  | error why =>
    intro s s' hs
    exact ⟨rfl, hs⟩
  | ok phase =>
    refine (setDot_alike i _).bind fun _ => (dotAt_alike i).bind fun d => ?_
    refine (perform_alike c i _).bind fun _ => (dotAt_alike i).bind fun d => ?_
    cases d.isDead with
    | true => exact .pure false
    | false =>
      cases isLost w d with
      | true => exact (setDot_alike i _).bind fun _ => .pure false
      | false => exact .pure _

theorem stepOnce_alike (w : World) (i : Nat) :
    Alike Agree (stepOnce w i) (stepOnce w i) := by
  refine (dotAt_alike i).bind fun d => ?_
  cases w.cell? d.pos with
  | none => exact setDot_alike i _
  | some c =>
    simp only [discard_eq]
    exact (step_alike w i c).bind fun _ => .pure _

end Turn

end DotPaths
