import DotPaths.Proofs.Clock
import DotPaths.Proofs.History
import DotPaths.Proofs.Requests

/-! # Executions

    A program is executed on a terminal without windows in one course: its dots
    are set up, and then they move until something stops them.

    On an ordinary terminal nothing is to be seen but what is printed.  What such
    a terminal does with a request depends on its limits alone, and it keeps
    accounts: it has written those outputs that can be written, and it has counted
    the ticks.
-/

namespace DotPaths

open Scene

/-! ## Terminals without windows -/

namespace Console

/-- The console is a terminal without windows. -/
def Unwindowed (c : Console) : Prop := ∃ d, c.service = .terminal d ∧ d.view ≠ .windowed

section reading
variable {c : Console} {d : Display}

theorem read_unwindowed (hservice : c.service = .terminal d) (hview : d.view ≠ .windowed)
    (byCode : Bool) :
    read byCode c = readInput byCode { c with events := questions d byCode ++ c.events } := by
  rw [read_eq hservice, if_neg hview, askInput_eq]

/-- Reading asks, takes from the input, and does nothing else. -/
theorem endState_read (hservice : c.service = .terminal d) (hview : d.view ≠ .windowed)
    (byCode : Bool) :
    ∃ rest, endState (read byCode c) =
      { c with input := rest, events := questions d byCode ++ c.events } := by
  rw [read_unwindowed hservice hview]
  have htakes : Alike (fun k k' => k' = k ∧ ∃ rest, k = { c with
      input := rest, events := questions d byCode ++ c.events }) (readInput byCode)
      (readInput byCode) := by
    refine readInput_alike ?_ ?_ byCode
    · intro k k' hk
      rw [hk.1]
    · rintro k k' rest ⟨rfl, _, rfl⟩
      exact ⟨rfl, rest, rfl⟩
  have hends := htakes { c with events := questions d byCode ++ c.events } _ ⟨rfl, c.input, rfl⟩
  cases hr : readInput byCode { c with events := questions d byCode ++ c.events } with
  | ok n t =>
    obtain ⟨t', -, -, ht⟩ := hends.ok_left hr
    exact ht
  | error e t =>
    obtain ⟨t', -, -, ht⟩ := hends.error_left hr
    exact ht

end reading

/-- Without windows there is nothing to be done at the end. -/
theorem Unwindowed.finish_eq {c : Console} (h : c.Unwindowed) : finish c = .ok () c := by
  obtain ⟨d, hservice, hview⟩ := h
  rw [Console.finish_eq hservice, if_neg hview]
  rfl

theorem unwindowed_indifferent : Indifferent Unwindowed where
  terminal h := h.imp fun _ hd => hd.1
  idle h _ := h
  aside _ _ _ _ _ _ h := h

theorem output_unwindowed (p : Payload) : Keeps Unwindowed (output p) := by
  rintro c ⟨d, hservice, hview⟩
  have hdisplay : ∀ text, Keeps Unwindowed (display d text) := by
    intro text c h
    unfold display
    split
    · exact h
    · cases hd : d.view with
      | off => exact unwindowed_indifferent.inattentive.write text c h
      | plain => exact h
      | windowed => exact absurd hd hview
  rw [output_eq hservice]
  refine Keeps.bind (fun c h => ?_) (fun text => ?_) c ⟨d, hservice, hview⟩
  · unfold render
    cases p.render with
    | ok text => exact h
    | error f => exact h
  · refine Keeps.bind (fun c h => ?_) fun _ => .bind (fun _ h => h) fun _ => hdisplay text
    rw [countOutput_eq]
    split <;> exact h

/-- A terminal stays what it is in the course of a run. -/
theorem unwindowed_lockstep :
    Observed.Lockstep clock (Observed.Alongside fun _ _ _ _ => False)
      (Observed.Outlasts fun _ _ _ => Unwindowed) := by
  have hI := unwindowed_indifferent
  refine Observed.clock_keeps (P := fun _ => Unwindowed) ?_ ?_ ?_ ?_
  · exact fun p _ c h => output_unwindowed p c h
  · exact fun byCode _ c h => hI.inattentive.read byCode c h
  · exact fun text _ c h => hI.report output_unwindowed text c h
  · intro w dots _ c _ h
    refine hI.tick output_unwindowed (fun d w dots => ?_) w dots c h
    exact hI.inattentive.draw (fun _ _ _ _ => fun c h => h) d w dots

end Console

/-! ## Terminals that just print -/

namespace Console

/-- The console is a terminal that shows what is printed and nothing else. -/
def JustPrints (c : Console) : Prop :=
  ∃ d, c.service = .terminal d ∧ d.view = .off ∧ d.silent = false

theorem JustPrints.unwindowed {c : Console} (h : c.JustPrints) : c.Unwindowed := by
  obtain ⟨d, hservice, hview, -⟩ := h
  exact ⟨d, hservice, by simp [hview]⟩

namespace JustPrints

variable {c : Console} {p : Payload} {text : CodeText} {left : Option Nat}

theorem of_service {c' : Console} (h : c.JustPrints) (hservice : c'.service = c.service) :
    c'.JustPrints := by
  unfold JustPrints
  rw [hservice]
  exact h

theorem exists_eq (h : c.JustPrints) : ∃ (d : Display) (k : Console),
    c = { k with service := .terminal { d with view := .off, silent := false } } := by
  obtain ⟨d, hservice, hview, hloud⟩ := h
  refine ⟨d, c, ?_⟩
  rw [← hview, ← hloud, ← hservice]

/-- A number without a text cannot be printed, and nothing is counted. -/
theorem output_of_error {f : ArithFault} (h : c.JustPrints) (hp : p.render = .error f) :
    output p c = .error (.fault (.arith f)) c := by
  obtain ⟨d, hservice, -, -⟩ := h
  exact Console.output_of_error hservice hp

/-- The output that reaches the limit is not printed. -/
theorem output_at_limit (h : c.JustPrints) (hp : p.render = .ok text)
    (hleft : countDown c.outputsLeft = (left, true)) :
    output p c = .error .exit { c with outputsLeft := left } := by
  obtain ⟨d, hservice, -, -⟩ := h
  exact Console.output_at_limit hservice hp hleft

/-- Any other output is written if it can be. -/
theorem output_of_room (h : c.JustPrints) (hp : p.render = .ok text)
    (hleft : countDown c.outputsLeft = (left, false)) :
    output p c = write text { c with outputsLeft := left, texts := text :: c.texts } := by
  obtain ⟨d, hservice, hview, hloud⟩ := h
  have hdisplay : display d text = write text := by
    unfold display
    rw [hview, hloud]
    rfl
  rw [Console.output_of_room hservice hp hleft, hdisplay]

/-- Two such terminals with the same input read alike. -/
theorem read_alike {Q : Console → Console → Prop} {byCode : Bool}
    (hprints : ∀ {c c'}, Q c c' → c.JustPrints)
    (hservice : ∀ {c c'}, Q c c' → c'.service = c.service)
    (hinput : ∀ {c c'}, Q c c' → c'.input = c.input)
    (htake : ∀ {c c'} (rest : List Char), Q c c' →
      Q { c with input := rest } { c' with input := rest })
    (hask : ∀ {c c' d}, Q c c' → c.service = .terminal d →
      Q { c with events := questions d byCode ++ c.events }
        { c' with events := questions d byCode ++ c'.events }) :
    Alike Q (read byCode) (read byCode) := by
  intro c c' h
  obtain ⟨d, hd, hview⟩ := (hprints h).unwindowed
  rw [read_unwindowed hd hview, read_unwindowed ((hservice h).trans hd) hview]
  exact readInput_alike hinput htake byCode _ _ (hask h hd)

/-- What is reported is printed, and the run ends. -/
theorem report_eq (h : c.JustPrints) (text : String) :
    report text c =
      (output (.text ("error: " ++ text : String)) >>= fun _ => throw .exit : ConsoleAct Unit) c := by
  obtain ⟨d, k, rfl⟩ := h.exists_eq
  rfl

theorem tick_eq (h : c.JustPrints) (w : World) (dots : List Pos) :
    tick w dots c =
      countTick (output (.text "QUITTING next step!\n")) { c with ticks := c.ticks + 1 } := by
  obtain ⟨d, k, rfl⟩ := h.exists_eq
  rfl

/-- A tick that does not reach the limit is counted. -/
theorem tick_of_room (h : c.JustPrints) (w : World) (dots : List Pos)
    (hleft : countDown c.ticksLeft = (left, false)) :
    tick w dots c = .ok () { c with ticks := c.ticks + 1, ticksLeft := left } := by
  rw [h.tick_eq, countTick_eq]
  simp only [hleft]
  rfl

/-- The tick that reaches the limit ends the run, and this is said. -/
theorem tick_at_limit (h : c.JustPrints) (w : World) (dots : List Pos)
    (hleft : countDown c.ticksLeft = (left, true)) :
    tick w dots c =
      (output (.text "QUITTING next step!\n") >>= fun _ => throw .exit : ConsoleAct Unit)
        { c with ticks := c.ticks + 1, ticksLeft := left } := by
  rw [h.tick_eq, countTick_eq]
  simp only [hleft]
  rfl

end JustPrints

end Console

/-! ## Accounts -/

/-- Those of the texts that can be written. -/
def CodeText.writable (texts : List CodeText) : List String :=
  (texts.filter isEncodable).map shown

theorem CodeText.writable_cons_of_encodable {text : CodeText} (h : text.isEncodable = true)
    (texts : List CodeText) : writable (text :: texts) = text.shown :: writable texts := by
  unfold writable
  rw [List.filter_cons_of_pos h, List.map_cons]

theorem CodeText.writable_cons_of_not_encodable {text : CodeText} (h : text.isEncodable = false)
    (texts : List CodeText) : writable (text :: texts) = writable texts := by
  unfold writable
  rw [List.filter_cons_of_neg (by simp [h])]

theorem CodeText.writable_map_ofString (texts : List String) :
    writable (texts.map ofString) = texts := by
  induction texts with
  | nil => rfl
  | cons text texts ih =>
    rw [List.map_cons, writable_cons_of_encodable (isEncodable_ofString text), shown_ofString, ih]

theorem CodeText.writable_append (texts texts' : List CodeText) :
    writable (texts ++ texts') = writable texts ++ writable texts' := by
  unfold writable
  rw [List.filter_append, List.map_append]

namespace Console

/-- What has happened at the console is that these texts were written, the last one
    first.  Where lines are typed, they have been asked for. -/
structure Wrote (texts : List String) (c : Console) : Prop where
  apart : c.events.filter (· ≠ .prompt question) = texts.map .write
  asked : .prompt question ∈ c.events → ∃ d, c.service = .terminal d ∧ d.interactive = true

/-- The terminal just prints, and it keeps accounts: it has counted as many ticks
    as the clock has written, and it has written the outputs, as far as they can be
    written. -/
structure Orderly (seen : List Scene) (c : Console) : Prop where
  prints : c.JustPrints
  counted : c.ticks = seen.length
  written : c.Wrote (CodeText.writable c.texts)

namespace Orderly

variable {seen : List Scene} {c : Console}

/-- A change of the input or of the limits. -/
theorem update {c' : Console} (h : c.Orderly seen) (hservice : c'.service = c.service)
    (hticks : c'.ticks = c.ticks) (hevents : c'.events = c.events)
    (htexts : c'.texts = c.texts) : c'.Orderly seen := by
  refine ⟨h.prints.of_service hservice, hticks.trans h.counted, ?_, ?_⟩
  · rw [hevents, htexts]
    exact h.written.apart
  · rw [hevents, hservice]
    exact h.written.asked

/-- The next text is written, or the run ends because it cannot be. -/
theorem write (h : c.Orderly seen) (text : CodeText) (left : Option Nat) :
    (endState (write text { c with outputsLeft := left, texts := text :: c.texts })).Orderly
      seen := by
  cases htext : text.isEncodable with
  | true =>
    rw [write_of_encodable htext]
    refine ⟨h.prints.of_service rfl, h.counted, ?_, ?_⟩
    · show (Event.write text.shown :: c.events).filter _ = (CodeText.writable (text :: _)).map _
      rw [CodeText.writable_cons_of_encodable htext, List.filter_cons_of_pos (by simp)]
      exact congrArg (Event.write text.shown :: ·) h.written.apart
    · intro hasked
      exact h.written.asked ((List.mem_cons.mp hasked).resolve_left (by simp))
  | false =>
    rw [write_of_not_encodable htext]
    refine ⟨h.prints.of_service rfl, h.counted, ?_, h.written.asked⟩
    show c.events.filter _ = (CodeText.writable (text :: _)).map _
    rw [CodeText.writable_cons_of_not_encodable htext]
    exact h.written.apart

theorem output (h : c.Orderly seen) (p : Payload) : (endState (output p c)).Orderly seen := by
  cases hp : p.render with
  | error f =>
    rw [h.prints.output_of_error hp]
    exact h
  | ok text =>
    cases hleft : countDown c.outputsLeft with
    | mk left reached =>
      cases reached with
      | true =>
        rw [h.prints.output_at_limit hp hleft]
        exact h.update rfl rfl rfl rfl
      | false =>
        rw [h.prints.output_of_room hp hleft]
        exact h.write text left

/-- Questions are not among what is written. -/
theorem ask {d : Display} (h : c.Orderly seen) (hservice : c.service = .terminal d)
    (byCode : Bool) :
    ({ c with events := questions d byCode ++ c.events } : Console).Orderly seen := by
  unfold questions
  split
  · next hasks =>
    refine ⟨h.prints.of_service rfl, h.counted, ?_, ?_⟩
    · rw [List.cons_append, List.nil_append, List.filter_cons_of_neg (by simp)]
      exact h.written.apart
    · exact fun _ => ⟨d, hservice, (Bool.and_eq_true_iff.mp hasks).1⟩
  · exact h.update rfl rfl rfl rfl

theorem read (h : c.Orderly seen) (byCode : Bool) : (endState (read byCode c)).Orderly seen := by
  obtain ⟨d, hd, hview⟩ := h.prints.unwindowed
  obtain ⟨rest, hread⟩ := endState_read hd hview byCode
  rw [hread]
  exact (h.ask hd byCode).update rfl rfl rfl rfl

/-- Printing before the run ends. -/
theorem output_throw (h : c.Orderly seen) (p : Payload) :
    (endState ((Console.output p >>= fun _ => throw .exit : ConsoleAct Unit) c)).Orderly seen := by
  have hoc := h.output p
  cases ho : Console.output p c with
  | ok u t =>
    rw [ho] at hoc
    rw [bind_of_ok ho]
    exact hoc
  | error e t =>
    rw [ho] at hoc
    rw [bind_of_error ho]
    exact hoc

theorem report (h : c.Orderly seen) (text : String) : (endState (report text c)).Orderly seen := by
  rw [h.prints.report_eq]
  exact h.output_throw _

theorem tick (h : c.Orderly seen) (w : World) (dots : List Pos) (u : Scene) :
    (endState (tick w dots c)).Orderly (seen ++ [u]) := by
  have hcounted : ∀ left, ({ c with ticks := c.ticks + 1, ticksLeft := left } : Console).Orderly
      (seen ++ [u]) := by
    intro left
    refine ⟨h.prints.of_service rfl, ?_, h.written.apart, h.written.asked⟩
    simp [h.counted]
  cases hleft : countDown c.ticksLeft with
  | mk left reached =>
    cases reached with
    | true =>
      rw [h.prints.tick_at_limit w dots hleft]
      exact (hcounted left).output_throw _
    | false =>
      rw [h.prints.tick_of_room w dots hleft]
      exact hcounted left

/-- The accounts are kept throughout a run. -/
theorem lockstep :
    Observed.Lockstep clock (Observed.Alongside fun _ _ _ _ => False)
      (Observed.Outlasts fun _ _ => Orderly) :=
  Observed.clock_keeps (fun p _ _ h => h.output p) (fun byCode _ _ h => h.read byCode)
    (fun text _ _ h => h.report text) fun w dots _ _ u h => h.tick w dots u

end Orderly

/-- The consoles differ in their limits at most. -/
def SameButLimits (c c' : Console) : Prop :=
  ∃ ticks outputs, c = { c' with ticksLeft := ticks, outputsLeft := outputs }

theorem Orderly.of_same {seen : List Scene} {c c' : Console} (h : c'.Orderly seen)
    (hc : SameButLimits c c') : c.Orderly seen := by
  obtain ⟨ticks, outputs, rfl⟩ := hc
  exact h.update rfl rfl rfl rfl

/-- The terminal keeps accounts, and nothing is limited. -/
structure Unlimited (seen : List Scene) (c : Console) : Prop extends Orderly seen c where
  ticksFree : c.ticksLeft = none
  outputsFree : c.outputsLeft = none

namespace Unlimited

variable {seen : List Scene} {c : Console}

theorem outputs_room (h : c.Unlimited seen) : countDown c.outputsLeft = (none, false) := by
  rw [h.outputsFree]
  rfl

theorem ticks_room (h : c.Unlimited seen) : countDown c.ticksLeft = (none, false) := by
  rw [h.ticksFree]
  rfl

/-- The output is one more, whether it can be written or not. -/
theorem output_of_ok {p : Payload} {text : CodeText} (h : c.Unlimited seen)
    (hp : p.render = .ok text) :
    (endState (Console.output p c)).Unlimited seen ∧
      (endState (Console.output p c)).texts = text :: c.texts := by
  have horderly := h.toOrderly.output p
  rw [h.prints.output_of_room hp h.outputs_room] at horderly ⊢
  cases htext : text.isEncodable with
  | true =>
    rw [write_of_encodable htext] at horderly ⊢
    exact ⟨⟨horderly, h.ticksFree, rfl⟩, rfl⟩
  | false =>
    rw [write_of_not_encodable htext] at horderly ⊢
    exact ⟨⟨horderly, h.ticksFree, rfl⟩, rfl⟩

/-- No output is lost by another one. -/
theorem output (h : c.Unlimited seen) (p : Payload) :
    (endState (output p c)).Unlimited seen ∧ c.texts <:+ (endState (output p c)).texts := by
  cases hp : p.render with
  | error f =>
    rw [h.prints.output_of_error hp]
    exact ⟨h, List.suffix_refl _⟩
  | ok text =>
    obtain ⟨hfree, htexts⟩ := h.output_of_ok hp
    rw [htexts]
    exact ⟨hfree, List.suffix_cons text c.texts⟩

theorem ask {d : Display} (h : c.Unlimited seen) (hservice : c.service = .terminal d)
    (byCode : Bool) :
    ({ c with events := questions d byCode ++ c.events } : Console).Unlimited seen :=
  ⟨h.toOrderly.ask hservice byCode, h.ticksFree, h.outputsFree⟩

theorem take (h : c.Unlimited seen) (rest : List Char) :
    ({ c with input := rest } : Console).Unlimited seen :=
  ⟨h.update rfl rfl rfl rfl, h.ticksFree, h.outputsFree⟩

theorem read (h : c.Unlimited seen) (byCode : Bool) :
    (endState (read byCode c)).Unlimited seen ∧ c.texts <:+ (endState (read byCode c)).texts := by
  obtain ⟨d, hd, hview⟩ := h.prints.unwindowed
  obtain ⟨rest, hread⟩ := endState_read hd hview byCode
  rw [hread]
  exact ⟨(h.ask hd byCode).take rest, List.suffix_refl _⟩

/-- A tick is counted. -/
theorem tick (h : c.Unlimited seen) (w : World) (dots : List Pos) (u : Scene) :
    tick w dots c = .ok () { c with ticks := c.ticks + 1, ticksLeft := none } ∧
      ({ c with ticks := c.ticks + 1, ticksLeft := none } : Console).Unlimited (seen ++ [u]) := by
  have horderly := h.toOrderly.tick w dots u
  have htick := h.prints.tick_of_room w dots h.ticks_room
  rw [htick] at horderly
  exact ⟨htick, horderly, rfl, h.outputsFree⟩

end Unlimited

theorem limit_natCast {n : Nat} (h : 1 ≤ n) : limit n = some n := by
  have hpos : (0 : Int) < n := by omega
  rw [limit, if_pos hpos, Int.toNat_natCast]

/-- A terminal that just prints is orderly at its start. -/
theorem start_orderly {d : Display} (hview : d.view = .off) (hloud : d.silent = false)
    (ticks outputs : Int) (input : List Char) (keys : List Int) (typed : List String) :
    (start (.terminal d) ticks outputs input keys typed).Orderly [] := by
  refine ⟨⟨d, rfl, hview, hloud⟩, rfl, ?_, ?_⟩
  · simp [start, hview, CodeText.writable]
  · simp [start, hview]

end Console

/-! ## Courses -/

namespace Machine

/-- The dots of a world are set up and move, for at most `fuel` ticks. -/
def course (w : World) (parallel : Bool) (fuel : Nat) : Act Unit := do
  setUp w
  loop w parallel fuel

theorem course_follows {γ : Type} (o : Observer γ) (w : World) (parallel : Bool) (fuel : Nat) :
    Observed.Follows (Observed.course o w parallel fuel) (course w parallel fuel) :=
  (Observed.setUp_follows o w).bind fun _ => Observed.loop_follows o w parallel fuel

/-- The scene before anything is set up. -/
def before (console : Console) (traced : Nat) : Scene :=
  { dots := [], console := console, traceLeft := traced }

/-- A program is launched and, if this succeeds, run for at most `fuel` ticks. -/
def execute (shelf : Shelf) (program : String) (parallel : Bool) (console : Console)
    (traced fuel : Nat) : Machine × Option Stop :=
  match launch shelf program parallel console traced with
  | (m, none) => run fuel m
  | (m, some why) => (m, some why)

/-- What an observer with the notes `g` has noted at the end of an execution. -/
def observe {γ : Type} (o : Observer γ) (g : γ) (shelf : Shelf) (program : String)
    (parallel : Bool) (console : Console) (traced fuel : Nat) : γ :=
  match World.build shelf program with
  | .error _ => g
  | .ok w => Observed.notes (Observed.course o w parallel fuel (before console traced, g))

variable {shelf : Shelf} {program : String} {parallel : Bool} {console : Console}
  {traced fuel : Nat} {w : World}

theorem observe_of_ok {γ : Type} {o : Observer γ} {g : γ}
    (hbuild : World.build shelf program = .ok w) :
    observe o g shelf program parallel console traced fuel =
      Observed.notes (Observed.course o w parallel fuel (before console traced, g)) := by
  unfold observe
  rw [hbuild]

theorem observe_of_error {γ : Type} {o : Observer γ} {g : γ} {f : DrawingFault}
    (hbuild : World.build shelf program = .error f) :
    observe o g shelf program parallel console traced fuel = g := by
  unfold observe
  rw [hbuild]

/-- The terminal is without windows at the end of a course, too. -/
theorem course_unwindowed (h : console.Unwindowed) (w : World) (parallel : Bool)
    (traced fuel : Nat) :
    (endState (course w parallel fuel (before console traced))).console.Unwindowed := by
  rw [((course_follows clock w parallel fuel).ends (before console traced, [])).1]
  exact (Console.unwindowed_lockstep.course w parallel fuel).lasting (e := .exit)
    (s := (before console traced, [])) (t := (before console traced, [])) h

/-- The console at the end of a course is orderly. -/
theorem course_orderly (h : console.Orderly []) (w : World) (parallel : Bool) (traced fuel : Nat) :
    (endState (course w parallel fuel (before console traced))).console.Orderly
      (Observed.notes (Observed.course clock w parallel fuel (before console traced, []))) := by
  rw [((course_follows clock w parallel fuel).ends (before console traced, [])).1]
  exact (Console.Orderly.lockstep.course w parallel fuel).lasting (e := .exit)
    (s := (before console traced, [])) (t := (before console traced, [])) h

/-- A program whose world is built is executed in one course. -/
theorem execute_of_ok (hbuild : World.build shelf program = .ok w) (h : console.Unwindowed)
    (parallel : Bool) (traced fuel : Nat) :
    (execute shelf program parallel console traced fuel).2 =
        stop? (course w parallel fuel (before console traced)) ∧
      (execute shelf program parallel console traced fuel).1.scene =
        endState (course w parallel fuel (before console traced)) := by
  have hend := course_unwindowed h w parallel traced fuel
  unfold course at hend ⊢
  unfold execute launch
  rw [hbuild]
  simp only [perform]
  cases hsetUp : setUp w (before console traced) with
  | error e s =>
    rw [bind_of_error hsetUp]
    unfold before at hsetUp
    rw [hsetUp]
    exact ⟨rfl, rfl⟩
  | ok u s =>
    rw [bind_of_ok hsetUp] at hend ⊢
    unfold before at hsetUp
    rw [hsetUp]
    simp only [run, perform, body, Bool.false_eq_true, if_false]
    cases hloop : loop w parallel fuel s with
    | ok u t => exact ⟨rfl, rfl⟩
    | error e t =>
      rw [hloop] at hend
      have hunwindowed : t.console.Unwindowed := hend
      have hfinish : onConsole Console.finish t = .ok () t := by
        unfold onConsole
        rw [hunwindowed.finish_eq]
      simp only [terminate, hfinish]
      exact ⟨rfl, rfl⟩

/-- The execution of a program whose world is built, and what an observer notes. -/
theorem execute_observed {γ : Type} (o : Observer γ) (g : γ)
    (hbuild : World.build shelf program = .ok w) (h : console.Unwindowed) (parallel : Bool)
    (traced fuel : Nat) :
    (execute shelf program parallel console traced fuel).2 =
        stop? (Observed.course o w parallel fuel (before console traced, g)) ∧
      ((execute shelf program parallel console traced fuel).1.scene,
          observe o g shelf program parallel console traced fuel) =
        endState (Observed.course o w parallel fuel (before console traced, g)) := by
  obtain ⟨hstop, hscene⟩ := execute_of_ok hbuild h parallel traced fuel
  obtain ⟨hend, hends⟩ := (course_follows o w parallel fuel).ends (before console traced, g)
  exact ⟨hstop.trans hends, Prod.ext (hscene.trans hend) (observe_of_ok hbuild)⟩

/-- Two executions of which the first may be cut short have come to related
    scenes, or the first has ended before. -/
theorem execute_lockstep {γ : Type} {o : Observer γ} {R : Scene × γ → Scene × γ → Prop}
    {D : Stop → Scene × γ → Scene × γ → Prop} {c c' : Console}
    (hlockstep : Observed.Lockstep o R D) (hbuild : World.build shelf program = .ok w)
    (hc : c.Unwindowed) (hc' : c'.Unwindowed) (g g' : γ)
    (hR : R (before c traced, g) (before c' traced, g')) :
    ((execute shelf program parallel c traced fuel).2 =
          (execute shelf program parallel c' traced fuel).2 ∧
        R ((execute shelf program parallel c traced fuel).1.scene,
            observe o g shelf program parallel c traced fuel)
          ((execute shelf program parallel c' traced fuel).1.scene,
            observe o g' shelf program parallel c' traced fuel)) ∨
      ∃ e, (execute shelf program parallel c traced fuel).2 = some e ∧
        D e ((execute shelf program parallel c traced fuel).1.scene,
            observe o g shelf program parallel c traced fuel)
          ((execute shelf program parallel c' traced fuel).1.scene,
            observe o g' shelf program parallel c' traced fuel) := by
  obtain ⟨hstop, hend⟩ := execute_observed o g hbuild hc parallel traced fuel
  obtain ⟨hstop', hend'⟩ := execute_observed o g' hbuild hc' parallel traced fuel
  rw [hstop, hend, hstop', hend']
  exact ((hlockstep.course w parallel fuel).abreast hR).endState_or

/-- A program whose world is not built has no course. -/
theorem execute_of_error {f : DrawingFault} (hbuild : World.build shelf program = .error f) :
    (execute shelf program parallel console traced fuel).2 = some (.fault (.drawing f)) ∧
      (execute shelf program parallel console traced fuel).1.scene = { dots := [], console :=
        { console with events :=
          if f.notice.isEmpty then console.events else .write f.notice :: console.events } } := by
  unfold execute launch
  rw [hbuild]
  exact ⟨rfl, rfl⟩

/-- With more rounds an execution that has come to its end comes to the same end. -/
theorem execute_settled {n k : Nat}
    (h : (execute shelf program parallel console traced n).2.isSome = true) (hk : n ≤ k) :
    execute shelf program parallel console traced k =
      execute shelf program parallel console traced n := by
  unfold execute at h ⊢
  cases hlaunch : launch shelf program parallel console traced with
  | mk m stop =>
    cases stop with
    | some why => rfl
    | none =>
      simp only [hlaunch] at h
      -- Only what stops is settled; a run that goes on would need its other rounds.
      have hsame : m.body k m.scene = m.body n m.scene := by
        cases hbody : m.body n m.scene with
        | ok u s => simp [run, perform, hbody] at h
        | error e s =>
          unfold body at hbody ⊢
          cases hgo : m.shutdown with
          | true => rw [hgo] at hbody; exact hbody
          | false => rw [hgo] at hbody; exact loop_of_error hbody hk
      simp only [run, perform, hsame]

/-- What two executions have in common. -/
structure SameCourse (x y : Machine × Option Stop) : Prop where
  /-- They end for the same reason, or neither has ended. -/
  ends : x.2 = y.2
  dots : x.1.scene.dots = y.1.scene.dots
  texts : x.1.scene.console.texts = y.1.scene.console.texts
  ticks : x.1.scene.console.ticks = y.1.scene.console.ticks
  input : x.1.scene.console.input = y.1.scene.console.input

/-- What two executions have in common that are the same to someone who looks at
    the terminal, too. -/
structure SameRun (x y : Machine × Option Stop) : Prop extends SameCourse x y where
  events : x.1.scene.console.events = y.1.scene.console.events

theorem SameRun.of_same {x y : Machine × Option Stop} (hends : x.2 = y.2)
    (hdots : x.1.scene.dots = y.1.scene.dots)
    (hc : x.1.scene.console.SameButLimits y.1.scene.console) : SameRun x y := by
  obtain ⟨ticks, outputs, hc⟩ := hc
  refine ⟨⟨hends, hdots, ?_, ?_, ?_⟩, ?_⟩
  all_goals rw [hc]

/-- Limits make no difference if the world is not built. -/
theorem SameRun.of_error {c c' : Console} {f : DrawingFault}
    (hbuild : World.build shelf program = .error f) (hc : c.SameButLimits c') :
    SameRun (execute shelf program parallel c traced fuel)
      (execute shelf program parallel c' traced fuel) := by
  obtain ⟨ticks, outputs, rfl⟩ := hc
  refine .of_same ?_ ?_ ⟨ticks, outputs, ?_⟩
  · rw [(execute_of_error hbuild).1, (execute_of_error hbuild).1]
  · rw [(execute_of_error hbuild).2, (execute_of_error hbuild).2]
  · rw [(execute_of_error hbuild).2, (execute_of_error hbuild).2]

/-- The scenes at the ticks of an execution, the first one first. -/
def tickScenes (shelf : Shelf) (program : String) (parallel : Bool) (console : Console)
    (traced fuel : Nat) : List Scene :=
  observe clock [] shelf program parallel console traced fuel

/-- Every tick that the console has counted has its scene. -/
theorem length_tickScenes (h : console.Orderly []) :
    (tickScenes shelf program parallel console traced fuel).length =
      (execute shelf program parallel console traced fuel).1.scene.console.ticks := by
  unfold tickScenes
  cases hbuild : World.build shelf program with
  | error f =>
    rw [(execute_of_error hbuild).2, observe_of_error hbuild]
    exact h.counted.symm
  | ok w =>
    have horderly := course_orderly h w parallel traced fuel
    rw [← (execute_of_ok hbuild h.prints.unwindowed parallel traced fuel).2] at horderly
    rw [observe_of_ok hbuild]
    exact horderly.counted.symm

/-- An execution that has not ended has had a tick in each round. -/
theorem fuel_le_ticks (h : console.Orderly [])
    (hgoes : (execute shelf program parallel console traced fuel).2 = none) :
    fuel ≤ (execute shelf program parallel console traced fuel).1.scene.console.ticks := by
  cases hbuild : World.build shelf program with
  | error f =>
    rw [(execute_of_error hbuild).1] at hgoes
    cases hgoes
  | ok w =>
    obtain ⟨hstop, hend⟩ :=
      execute_observed clock [] hbuild h.prints.unwindowed parallel traced fuel
    rw [hgoes] at hstop
    cases hcourse : Observed.course clock w parallel fuel (before console traced, []) with
    | error e y =>
      rw [hcourse] at hstop
      cases hstop
    | ok u y =>
      rw [hcourse] at hend
      have hscenes : tickScenes shelf program parallel console traced fuel = y.2 :=
        congrArg Prod.snd hend
      rw [← length_tickScenes h, hscenes]
      exact Observed.course_writes hcourse

end Machine

/-- What is printed is all there is to be seen. -/
def plainDisplay : Display :=
  { view := .off, silent := false, columns := 80, lines := 25, viewLines := 16, autostep := .int 0 }

end DotPaths
