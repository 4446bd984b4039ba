import DotPaths.Proofs.Observer

/-! # What requests keep

    A console keeps a property if the property holds after a request as it did
    before, whether the request is served or stops the run.  Many properties have
    to do with one or two parts of a console only.  They are indifferent to the
    rest: to the input and the limits that are left, to the count of the ticks,
    and to events that neither draw a cell nor have to do with the pad.  Such a
    property is kept by reading and by waiting, also if it has to do with the
    limits; what remains to be looked at is drawing and printing.
-/

namespace DotPaths.Console

/-! ## Requests to a terminal -/

theorem countOutput_eq (c : Console) :
    countOutput c = (if (countDown c.outputsLeft).2 then throw .exit else pure () : ConsoleAct Unit)
      { c with outputsLeft := (countDown c.outputsLeft).1 } := rfl

theorem countTick_eq (atLimit : ConsoleAct Unit) (c : Console) :
    countTick atLimit c =
      (if (countDown c.ticksLeft).2 then atLimit >>= fun _ => throw .exit else pure () :
        ConsoleAct Unit) { c with ticksLeft := (countDown c.ticksLeft).1 } := rfl

theorem render_of_ok {p : Payload} {text : CodeText} (h : p.render = .ok text) (c : Console) :
    render p c = .ok text c := by
  unfold render
  rw [h]
  rfl

section terminal
variable {c : Console} {d : Display} {p : Payload} {text : CodeText} {left : Option Nat}

theorem exists_eq_terminal (h : c.service = .terminal d) :
    ∃ k : Console, c = { k with service := .terminal d } := ⟨c, by rw [← h]⟩

theorem output_eq (h : c.service = .terminal d) (p : Payload) :
    output p c = (render p >>= fun text => countOutput >>= fun _ =>
      record text >>= fun _ => display d text) c := by
  obtain ⟨k, rfl⟩ := exists_eq_terminal h
  rfl

/-- A number without a text cannot be printed, and nothing is counted. -/
theorem output_of_error {f : ArithFault} (h : c.service = .terminal d)
    (hp : p.render = .error f) : output p c = .error (.fault (.arith f)) c := by
  have hrender : render p c = .error (.fault (.arith f)) c := by
    unfold render
    rw [hp]
    rfl
  rw [output_eq h, bind_of_error hrender]

/-- The output that reaches the limit is not shown. -/
theorem output_at_limit (h : c.service = .terminal d) (hp : p.render = .ok text)
    (hleft : countDown c.outputsLeft = (left, true)) :
    output p c = .error .exit { c with outputsLeft := left } := by
  have hcount : countOutput c = .error .exit { c with outputsLeft := left } := by
    rw [countOutput_eq, hleft]
    rfl
  rw [output_eq h, bind_of_ok (render_of_ok hp c), bind_of_error hcount]

/-- Any other output is noted and shown. -/
theorem output_of_room (h : c.service = .terminal d) (hp : p.render = .ok text)
    (hleft : countDown c.outputsLeft = (left, false)) :
    output p c = display d text { c with outputsLeft := left, texts := text :: c.texts } := by
  have hcount : countOutput c = .ok () { c with outputsLeft := left } := by
    rw [countOutput_eq, hleft]
    rfl
  rw [output_eq h, bind_of_ok (render_of_ok hp c), bind_of_ok hcount]
  rfl

theorem read_eq (h : c.service = .terminal d) (byCode : Bool) :
    read byCode c = (if d.view = .windowed then readWindow d byCode else askInput d byCode) c := by
  obtain ⟨k, rfl⟩ := exists_eq_terminal h
  rfl

theorem finish_eq (h : c.service = .terminal d) :
    finish c = (if d.view = .windowed then closingCalls.forM call else pure ()) c := by
  obtain ⟨k, rfl⟩ := exists_eq_terminal h
  rfl

theorem report_eq (h : c.service = .terminal d) (text : String) :
    report text c =
      (output (.text ("error: " ++ text : String)) >>= fun _ => throw .exit : ConsoleAct Unit) c := by
  obtain ⟨k, rfl⟩ := exists_eq_terminal h
  rfl

theorem tick_eq (h : c.service = .terminal d) (w : World) (dots : List Pos) :
    tick w dots c = (Observed.showStep d w dots >>= fun _ =>
      countTick (output (.text "QUITTING next step!\n"))) { c with ticks := c.ticks + 1 } := by
  -- Both branches go on to count the tick, which is written into each of them.
  have htick : tick w dots c = (if d.view ≠ .off && !d.silent then
        draw d w dots >>= fun _ => waitStep d >>= fun _ =>
          countTick (output (.text "QUITTING next step!\n"))
      else countTick (output (.text "QUITTING next step!\n"))) { c with ticks := c.ticks + 1 } := by
    obtain ⟨k, rfl⟩ := exists_eq_terminal h
    rfl
  rw [htick]
  unfold Observed.showStep
  cases hseen : (decide (d.view ≠ .off) && !d.silent) with
  | true =>
    rw [if_pos rfl, if_pos rfl, bind_assoc]
  | false =>
    rw [if_neg Bool.false_ne_true, if_neg Bool.false_ne_true, pure_bind]

end terminal

/-! ## Keeping a property -/

/-- The property holds after the action if it held before, also if the action
    stops. -/
def Keeps {α : Type} (I : Console → Prop) (a : ConsoleAct α) : Prop :=
  ∀ c, I c → I (endState (a c))

namespace Keeps

variable {α β : Type} {I : Console → Prop}

theorem pure (x : α) : Keeps I (Pure.pure x) := fun _ h => h

theorem throw (e : Stop) : Keeps I (MonadExcept.throw e : ConsoleAct α) := fun _ h => h

theorem bind {a : ConsoleAct α} {f : α → ConsoleAct β} (ha : Keeps I a) (hf : ∀ x, Keeps I (f x)) :
    Keeps I (a >>= f) := fun c h =>
  endState_bind (fun x => hf x) (ha c h)

theorem forM {γ : Type} {f : γ → ConsoleAct PUnit} {l : List γ} (hf : ∀ x ∈ l, Keeps I (f x)) :
    Keeps I (l.forM f) := by
  induction l with
  | nil => exact pure _
  | cons x l ih =>
    simp only [List.forM_eq_forM, List.forM_cons] at ih ⊢
    refine (hf x List.mem_cons_self).bind fun _ => ih fun y hy => ?_
    exact hf y (List.mem_cons_of_mem x hy)

/-- Actions that begin by looking at the console. -/
theorem get {f : Console → ConsoleAct β} (hf : ∀ c, I c → I (endState (f c c))) :
    Keeps I (MonadState.get >>= f) := hf

theorem blanks (n : Int) : Keeps I (blanks n) := by
  unfold Console.blanks
  split
  · exact .throw _
  · split
    · exact .throw _
    · exact .pure _

theorem codeOfKey (code : Int) : Keeps I (codeOfKey code) := by
  unfold Console.codeOfKey
  split
  · exact .pure _
  · exact .pure _
  · exact .throw _

end Keeps

/-! ## Indifferent properties -/

end Console

/-- The event neither draws a cell nor has to do with the pad. -/
def Event.Idle : Event → Prop
  | .call (.windowPut ..) | .call (.padText ..) | .call (.openPad ..) => False
  | _ => True

namespace Console

/-- A property of terminals that has nothing to do with what is left of the input,
    with the count of the ticks, and with idle events. -/
structure Inattentive (I : Console → Prop) : Prop where
  terminal : ∀ {c}, I c → ∃ d, c.service = .terminal d
  idle : ∀ {c e}, I c → e.Idle → I { c with events := e :: c.events }
  aside : ∀ {c} input keys typed ticks, I c →
    I { c with input := input, keys := keys, typed := typed, ticks := ticks }

/-- A property of terminals that has nothing to do with what is left of the input
    and of the limits, with the count of the ticks, and with idle events. -/
structure Indifferent (I : Console → Prop) : Prop where
  terminal : ∀ {c}, I c → ∃ d, c.service = .terminal d
  idle : ∀ {c e}, I c → e.Idle → I { c with events := e :: c.events }
  aside : ∀ {c} input keys typed ticksLeft outputsLeft ticks, I c →
    I { c with input := input, keys := keys, typed := typed, ticksLeft := ticksLeft,
               outputsLeft := outputsLeft, ticks := ticks }

theorem Indifferent.inattentive {I : Console → Prop} (hI : Indifferent I) : Inattentive I where
  terminal := hI.terminal
  idle := hI.idle
  aside {c} input keys typed ticks h :=
    hI.aside input keys typed c.ticksLeft c.outputsLeft ticks h

namespace Inattentive

variable {I : Console → Prop} (hI : Inattentive I)
include hI

theorem emit {e : Event} (he : e.Idle) : Keeps I (emit e) := fun _ h => hI.idle h he

theorem call {k : Call} (hk : (Event.call k).Idle) : Keeps I (call k) := hI.emit hk

theorem write (text : CodeText) : Keeps I (write text) := by
  unfold Console.write
  split
  · exact hI.emit (by trivial)
  · exact .throw _

/-! ### Reading and waiting -/

theorem takeLine : Keeps I takeLine := by
  refine .get fun c h => ?_
  cases Text.takeLine c.input with
  | some taken => exact hI.aside taken.2 c.keys c.typed c.ticks h
  | none => exact h

theorem takeChar : Keeps I takeChar := by
  refine .get fun c h => ?_
  cases c.input with
  | nil => exact h
  | cons ch rest => exact hI.aside rest c.keys c.typed c.ticks h

theorem takeKey : Keeps I takeKey := by
  refine .get fun c h => ?_
  exact hI.idle (hI.aside c.input (c.keys.drop 1) c.typed c.ticks h)
    trivial

theorem typed (lines : List String) : Keeps I (modify fun c => { c with typed := lines }) :=
  fun c h => hI.aside c.input c.keys lines c.ticks h

theorem takeTyped (row column : Int) : Keeps I (takeTyped row column) := by
  refine .get fun c h => ?_
  -- Lines are typed until one is not empty, so the induction is on those to come.
  have hgo : ∀ lines, Keeps I (takeTyped.go row column lines) := by
    intro lines
    induction lines with
    | nil => exact (hI.typed []).bind fun _ => .throw _
    | cons line rest ih =>
      refine (hI.typed rest).bind fun _ => (hI.call (by trivial)).bind fun _ => ?_
      split
      · exact ih
      · exact .pure _
  exact hgo c.typed c h

theorem readInput (byCode : Bool) : Keeps I (readInput byCode) := by
  cases byCode with
  | true =>
    refine hI.takeChar.bind fun ch => ?_
    cases ch with
    | some ch => exact .pure _
    | none => exact .pure _
  | false => exact hI.takeLine.bind fun line => .pure _

theorem askInput (d : Display) (byCode : Bool) : Keeps I (askInput d byCode) := by
  unfold Console.askInput
  split
  · exact (hI.emit (by trivial)).bind fun _ => hI.readInput byCode
  · exact hI.readInput byCode

theorem readWindow (d : Display) (byCode : Bool) : Keeps I (readWindow d byCode) := by
  -- The question is put on the screen, and a line is cleared for the answer.
  refine (hI.call (by trivial)).bind fun _ => (hI.call (by trivial)).bind fun _ =>
    (Keeps.blanks _).bind fun _ => (hI.call (by trivial)).bind fun _ =>
    (hI.call (by trivial)).bind fun _ => ?_
  cases byCode with
  | true => exact hI.takeKey.bind .codeOfKey
  | false => exact (hI.takeTyped _ _).bind fun line => .pure _

theorem read (byCode : Bool) : Keeps I (read byCode) := by
  intro c h
  obtain ⟨d, hservice⟩ := hI.terminal h
  rw [read_eq hservice]
  split
  · exact hI.readWindow d byCode c h
  · exact hI.askInput d byCode c h

theorem waitStep (d : Display) : Keeps I (waitStep d) := by
  unfold Console.waitStep
  split
  · exact hI.emit (by trivial)
  · split
    · rw [discard_eq]
      exact (hI.emit (by trivial)).bind fun _ => hI.takeLine.bind fun _ => .pure _
    · refine hI.takeKey.bind fun code => ?_
      split
      · exact .throw _
      · exact .pure _

theorem finish : Keeps I finish := by
  intro c h
  obtain ⟨d, hservice⟩ := hI.terminal h
  rw [finish_eq hservice]
  split
  · refine Keeps.forM (fun k hk => hI.call ?_) c h
    simp only [closingCalls, List.mem_cons, List.not_mem_nil, or_false] at hk
    rcases hk with rfl | rfl | rfl | rfl <;> trivial
  · exact h

/-! ### Drawing -/

/-- To draw is to put cells, as far as the property is concerned. -/
theorem draw (hput : ∀ row column glyph colour,
      Keeps I (Console.call (.windowPut row column glyph colour)))
    (d : Display) (w : World) (dots : List Pos) : Keeps I (draw d w dots) := by
  unfold Console.draw
  split
  · refine (hI.emit (by trivial)).bind fun _ =>
      .bind (.forM fun row _ => hI.emit trivial) fun _ => ?_
    exact .get fun c h => hI.write _ c h
  · refine (hI.call (by trivial)).bind fun _ => .forM fun row _ => .forM fun k hk => ?_
    obtain ⟨p, -, rfl⟩ := List.mem_map.mp hk
    exact hput _ _ _ _

theorem showStep {d : Display} {w : World} {dots : List Pos}
    (hdraw : Keeps I (Console.draw d w dots)) : Keeps I (Observed.showStep d w dots) := by
  unfold Observed.showStep
  split
  · exact hdraw.bind fun _ => hI.waitStep d
  · exact .pure _

end Inattentive

/-! ### Printing -/

namespace Indifferent

variable {I : Console → Prop} (hI : Indifferent I)
include hI

theorem countTick {atLimit : ConsoleAct Unit} (hlimit : Keeps I atLimit) :
    Keeps I (countTick atLimit) := by
  intro c h
  rw [countTick_eq]
  have haside := hI.aside c.input c.keys c.typed (countDown c.ticksLeft).1 c.outputsLeft c.ticks h
  split
  · exact (hlimit.bind fun _ => .throw _) _ haside
  · exact haside

theorem report (houtput : ∀ p, Keeps I (output p)) (text : String) : Keeps I (report text) := by
  intro c h
  obtain ⟨d, hservice⟩ := hI.terminal h
  rw [report_eq hservice]
  exact ((houtput _).bind fun _ => .throw _) c h

theorem tick (houtput : ∀ p, Keeps I (output p))
    (hdraw : ∀ d w dots, Keeps I (Console.draw d w dots)) (w : World) (dots : List Pos) :
    Keeps I (tick w dots) := by
  intro c h
  obtain ⟨d, hservice⟩ := hI.terminal h
  rw [tick_eq hservice]
  have hshow := hI.inattentive.showStep (hdraw d w dots)
  exact (hshow.bind fun _ => hI.countTick (houtput _)) _
    (hI.aside c.input c.keys c.typed c.ticksLeft c.outputsLeft (c.ticks + 1) h)

end Indifferent

/-! ## Printing in a window -/

/-- Does the text end a line? -/
def endsLine (text : String) : Bool := text.toList.getLast? == some '\n'

/-- The console when a text has been noted and put into the pad. -/
def padded (d : Display) (text : CodeText) (c : Console) : Console :=
  { c with
    events :=
      .call (.padRefresh (c.padRow - min (c.padRow : Int) (d.lines - d.viewLines - 1)) 0
        d.viewLines 0 (d.lines - 1) (d.columns - 1)) ::
      .call (.padText c.padRow c.padColumn text.shown) :: c.events
    padRow := if endsLine text.shown then c.padRow + 1 else c.padRow
    padColumn := if endsLine text.shown then 1 else c.padColumn + text.shown.length
    texts := text :: c.texts }

/-- A surrogate is not shown as a newline. -/
theorem endsLine_shown (text : CodeText) :
    endsLine text.shown = (text.getLast? == some (.char '\n')) := by
  unfold endsLine CodeText.shown
  rw [String.toList_ofList, List.getLast?_map]
  cases text.getLast? with
  | none => rfl
  | some p =>
    rw [Bool.eq_iff_iff]
    cases p with
    | char c => simp [CodePoint.shown]
    | surrogate n => simp [CodePoint.shown]

theorem putInPad_eq (d : Display) (text : CodeText) (c : Console) :
    putInPad d text { c with texts := text :: c.texts } = .ok () (padded d text c) := by
  have hput : putInPad d text { c with texts := text :: c.texts } =
      (if text.getLast? == some (.char '\n') then
          modify fun c => { c with padRow := c.padRow + 1, padColumn := 1 }
        else modify fun c => { c with padColumn := c.padColumn + text.length } :
          ConsoleAct Unit) { c with
      texts := text :: c.texts
      events :=
        .call (.padRefresh (c.padRow - min (c.padRow : Int) (d.lines - d.viewLines - 1)) 0
          d.viewLines 0 (d.lines - 1) (d.columns - 1)) ::
        .call (.padText c.padRow c.padColumn text.shown) :: c.events } := rfl
  rw [hput, ← endsLine_shown, ← CodeText.length_shown]
  unfold padded
  cases endsLine text.shown with
  | true => rfl
  | false => rfl

/-- Printing in a window stops with a limit or a fault, or the text is noted and put
    into the pad. -/
theorem endState_output {c : Console} {d : Display} (hservice : c.service = .terminal d)
    (hview : d.view = .windowed) (hloud : d.silent = false) (p : Payload) :
    ∃ left, endState (output p c) = { c with outputsLeft := left } ∨
      ∃ text, p.render = .ok text ∧
        endState (output p c) = padded d text { c with outputsLeft := left } := by
  have hdisplay : ∀ text, display d text = putInPad d text := by
    intro text
    unfold display
    rw [hview, hloud]
    rfl
  cases hp : p.render with
  | error f =>
    rw [output_of_error hservice hp]
    exact ⟨c.outputsLeft, .inl rfl⟩
  | ok text =>
    -- The output is counted before it is shown: the one at the limit never is.
    cases hleft : countDown c.outputsLeft with
    | mk left reached =>
      refine ⟨left, ?_⟩
      cases reached with
      | true =>
        rw [output_at_limit hservice hp hleft]
        exact .inl rfl
      | false =>
        rw [output_of_room hservice hp hleft, hdisplay]
        have hput := putInPad_eq d text { c with outputsLeft := left }
        rw [hput]
        exact .inr ⟨text, rfl, rfl⟩

/-! ## Courses of requests -/

/-- Something that a console is asked for. -/
inductive Demand where
  | output (p : Payload)
  | read (byCode : Bool)
  | report (text : String)
  | tick (w : World) (dots : List Pos)
  | finish

/-- The console after it has been asked, whether it could comply or not. -/
def Demand.serve : Demand → Console → Console
  | .output p, c => endState (Console.output p c)
  | .read byCode, c => endState (Console.read byCode c)
  | .report text, c => endState (Console.report text c)
  | .tick w dots, c => endState (Console.tick w dots c)
  | .finish, c => endState (Console.finish c)

/-- The console after one demand after the other. -/
def serveAll (demands : List Demand) (c : Console) : Console :=
  demands.foldl (fun c demand => demand.serve c) c

theorem Indifferent.serveAll {I : Console → Prop} (hI : Indifferent I)
    (houtput : ∀ p, Keeps I (Console.output p))
    (hdraw : ∀ d w dots, Keeps I (Console.draw d w dots))
    (demands : List Demand) {c : Console} (h : I c) : I (serveAll demands c) := by
  induction demands generalizing c with
  | nil => exact h
  | cons demand demands ih =>
    refine ih ?_
    cases demand with
    | output p => exact houtput p c h
    | read byCode => exact hI.inattentive.read byCode c h
    | report text => exact hI.report houtput text c h
    | tick w dots => exact hI.tick houtput hdraw w dots c h
    | finish => exact hI.inattentive.finish c h

end DotPaths.Console
