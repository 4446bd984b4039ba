import DotPaths.Proofs.Cells
import DotPaths.Proofs.Execution
import DotPaths.Proofs.Log
import DotPaths.Proofs.Schedules

/-! # Views

    A terminal can be silent, and it can show the drawing after each step.  As long
    as it has no window and does not wait for input between two steps, what it shows
    should have no part in what happens.  It has none, but for one thing: a text that
    cannot be encoded cannot be shown either, and this ends the run.

    A run on any terminal of this kind is followed side by side with the run on a
    silent one.  Both go through the same callbacks with the same dots, and their
    consoles match: they differ in their settings, in the events that they have
    caused and in their logs.  Only the first run can be cut short.

    And a silent terminal is silent, but for one thing again: where lines are typed,
    it asks for them.
-/

namespace DotPaths

/-- The terminal shows what happens and does nothing else: it has no window, and
    it never waits for input between two steps. -/
def Display.OnlyShows (d : Display) : Prop :=
  d.view = .off ∨ d.view = .plain ∧ (d.silent = true ∨ d.autostep.isZero = false)

theorem Display.OnlyShows.not_windowed {d : Display} (h : d.OnlyShows) : d.view ≠ .windowed := by
  rcases h with hview | ⟨hview, -⟩
  · simp [hview]
  · simp [hview]

/-- The run stops because a text cannot be encoded. -/
def Stop.unencodable (text : CodeText) : Stop := .fault (.notProvided (.encoding text))

/-- What a program calls a console for. -/
inductive Callback where
  | print (p : Payload)
  | read (byCode : Bool)
  deriving DecidableEq

/-- An observer who keeps the callbacks, the first one first. -/
def callbackKeeper : Observer (List Callback) where
  called p calls := calls ++ [.print p]
  asked byCode calls := calls ++ [.read byCode]

namespace Console

/-! ## Silent terminals -/

/-- From `c` to `k` nothing has happened outside, and outputs have only been added. -/
structure Hushed (c k : Console) : Prop where
  service : k.service = c.service
  events : k.events = c.events
  texts : c.texts <:+ k.texts

theorem Hushed.refl (c : Console) : c.Hushed c := ⟨rfl, rfl, List.suffix_refl _⟩

theorem Hushed.trans {c k l : Console} (h : c.Hushed k) (h' : k.Hushed l) : c.Hushed l :=
  ⟨h'.service.trans h.service, h'.events.trans h.events, h.texts.trans h'.texts⟩

section silent
variable {q : Display} (hsilent : q.silent = true)
include hsilent

theorem display_silent (text : CodeText) : display q text = pure () := by
  unfold display
  rw [if_pos hsilent]

theorem showStep_silent (w : World) (dots : List Pos) : Observed.showStep q w dots = pure () := by
  unfold Observed.showStep
  rw [if_neg (by simp [hsilent])]

variable {c : Console} (hservice : c.service = .terminal q)
include hservice

theorem output_hushed (p : Payload) : c.Hushed (endState (output p c)) := by
  cases hp : p.render with
  | error f =>
    rw [output_of_error hservice hp]
    exact .refl c
  | ok text =>
    cases hleft : countDown c.outputsLeft with
    | mk left reached =>
      cases reached with
      | true =>
        rw [output_at_limit hservice hp hleft]
        exact ⟨rfl, rfl, List.suffix_refl _⟩
      | false =>
        rw [output_of_room hservice hp hleft, display_silent hsilent]
        exact ⟨rfl, rfl, List.suffix_cons text c.texts⟩

/-- Printing before the run ends. -/
theorem output_throw_hushed (p : Payload) :
    c.Hushed (endState ((output p >>= fun _ => throw .exit : ConsoleAct Unit) c)) :=
  endState_bind (P := c.Hushed) (fun _ _ h => h) (output_hushed hsilent hservice p)

theorem report_hushed (text : String) : c.Hushed (endState (report text c)) := by
  rw [report_eq hservice]
  exact output_throw_hushed hsilent hservice _

theorem countTick_hushed (p : Payload) : c.Hushed (endState (countTick (output p) c)) := by
  generalize hk : { c with ticksLeft := (countDown c.ticksLeft).1 } = k
  have hcounted : c.Hushed k := by
    subst hk
    exact ⟨rfl, rfl, List.suffix_refl _⟩
  rw [countTick_eq, hk]
  split
  · exact hcounted.trans (output_throw_hushed hsilent (hcounted.service.trans hservice) p)
  · exact hcounted

theorem tick_hushed (w : World) (dots : List Pos) : c.Hushed (endState (tick w dots c)) := by
  generalize hk : { c with ticks := c.ticks + 1 } = k
  have hcounted : c.Hushed k := by
    subst hk
    exact ⟨rfl, rfl, List.suffix_refl _⟩
  rw [tick_eq hservice, showStep_silent hsilent, pure_bind, hk]
  exact hcounted.trans (countTick_hushed hsilent (hcounted.service.trans hservice) _)

end silent

/-! ## Showing -/

/-- The action causes events, and always completes. -/
def Emits (a : ConsoleAct Unit) : Prop := ∀ c, ∃ events, a c = .ok () { c with events := events }

namespace Emits

theorem emit (e : Event) : Emits (emit e) := fun c => ⟨e :: c.events, rfl⟩

theorem bind {a : ConsoleAct Unit} {f : Unit → ConsoleAct Unit} (ha : Emits a) (hf : Emits (f ())) :
    Emits (a >>= f) := by
  intro c
  obtain ⟨events, hfirst⟩ := ha c
  obtain ⟨events', hsecond⟩ := hf { c with events := events }
  exact ⟨events', by rw [bind_of_ok hfirst, hsecond]⟩

theorem forM {α : Type} {f : α → ConsoleAct Unit} (hf : ∀ x, Emits (f x)) (l : List α) :
    Emits (l.forM f) := by
  induction l with
  | nil => exact fun c => ⟨c.events, rfl⟩
  | cons x l ih =>
    simp only [List.forM_eq_forM, List.forM_cons] at ih ⊢
    exact (hf x).bind ih

end Emits

/-- A newline can be encoded. -/
theorem isEncodable_newline_cons (text : CodeText) :
    CodeText.isEncodable (.char '\n' :: text) = text.isEncodable := rfl

/-- The plain view is drawn, with the log below it if that can be encoded. -/
theorem draw_plain {d : Display} (hview : d.view = .plain) (w : World) (dots : List Pos)
    (c : Console) :
    ∃ events, draw d w dots c = write (.char '\n' :: c.log) { c with events := events } := by
  have hframe : Emits (Console.emit .clearScreen >>= fun _ =>
      (View.frame d.columns d.viewLines w dots).forM fun row =>
        Console.emit (.write (View.plainRow row))) :=
    (Emits.emit _).bind (.forM (fun _ => .emit _) _)
  obtain ⟨events, hevents⟩ := hframe c
  refine ⟨events, ?_⟩
  have hdraw : draw d w dots c = ((Console.emit .clearScreen >>= fun _ =>
      (View.frame d.columns d.viewLines w dots).forM fun row =>
        Console.emit (.write (View.plainRow row))) >>= fun _ =>
          get >>= fun k => write (.char '\n' :: k.log)) c := by
    unfold draw
    rw [if_pos hview, bind_assoc]
  rw [hdraw, bind_of_ok hevents]
  rfl

/-- Between two steps there is nothing but the drawing and a pause, unless the log
    cannot be encoded. -/
theorem showStep_cases {d : Display} (hd : d.OnlyShows) (w : World) (dots : List Pos)
    (c : Console) :
    ∃ events, Observed.showStep d w dots c = .ok () { c with events := events } ∨
      d.view = .plain ∧ c.log.isEncodable = false ∧
        Observed.showStep d w dots c =
          .error (.unencodable (.char '\n' :: c.log)) { c with events := events } := by
  unfold Observed.showStep
  by_cases hseen : (decide (d.view ≠ .off) && !d.silent) = true
  · rw [if_pos hseen]
    obtain ⟨hview, hloud⟩ : d.view ≠ .off ∧ d.silent = false := by simpa using hseen
    obtain ⟨hplain, hpause⟩ := hd.resolve_left hview
    have hwait : waitStep d = emit (.pause d.autostep) := by
      have hnonzero : d.autostep.isZero = false := by simpa [hloud] using hpause
      unfold waitStep
      rw [if_pos (by simp [hnonzero])]
    obtain ⟨events, hdraw⟩ := draw_plain hplain w dots c
    cases hlog : c.log.isEncodable with
    | true =>
      have htext := (isEncodable_newline_cons c.log).trans hlog
      rw [write_of_encodable htext] at hdraw
      rw [bind_of_ok hdraw, hwait]
      exact ⟨_, .inl rfl⟩
    | false =>
      have htext := (isEncodable_newline_cons c.log).trans hlog
      rw [write_of_not_encodable htext] at hdraw
      rw [bind_of_error hdraw]
      exact ⟨events, .inr ⟨hplain, rfl, rfl⟩⟩
  · rw [if_neg hseen]
    exact ⟨c.events, .inl rfl⟩

/-- What is in the log has been there before or is new. -/
theorem extendLog_suffix (d : Display) (log text : CodeText) :
    extendLog d log text <:+ log ++ text := by
  unfold extendLog Text.lastLines
  have hsuffix : ∀ k, Text.joinWith (.char '\n') ((Text.splitOn (.char '\n') (log ++ text)).drop k) <:+
      Text.joinWith (.char '\n') (Text.splitOn (.char '\n') (log ++ text)) :=
    Text.joinWith_drop_suffix _
  rw [Text.joinWith_splitOn] at hsuffix
  split
  · exact hsuffix _
  · exact hsuffix _

/-- On a terminal that only shows, an output is shown, or it cannot be encoded. -/
theorem display_cases {d : Display} (hd : d.OnlyShows) (text : CodeText) (c : Console) :
    (∃ events log, display d text c = .ok () { c with events := events, log := log } ∧
        log ⊆ c.log ++ text ∧ (d.view = .off → d.silent = false → text.isEncodable = true)) ∨
      d.view = .off ∧ d.silent = false ∧ text.isEncodable = false ∧
        display d text c = .error (.unencodable text) c := by
  cases hs : d.silent with
  | true =>
    rw [display_silent hs]
    exact .inl ⟨c.events, c.log, rfl, List.subset_append_left _ _, fun _ h => nomatch h⟩
  | false =>
    unfold display
    rw [hs, if_neg Bool.false_ne_true]
    rcases hd with hview | ⟨hview, -⟩
    · rw [hview]
      cases htext : text.isEncodable with
      | true =>
        exact .inl ⟨_, c.log, write_of_encodable htext c, List.subset_append_left _ _,
          fun _ _ => rfl⟩
      | false => exact .inr ⟨rfl, rfl, rfl, write_of_not_encodable htext c⟩
    · rw [hview]
      refine .inl ⟨c.events, _, rfl, (extendLog_suffix d c.log text).subset, fun h => nomatch h⟩

/-! ## Matching consoles -/

/-- Consoles of the terminals `d` and `q` that differ only in what has been shown.
    If something in the log cannot be encoded, it has been printed; and on a terminal
    that just prints, everything so far could be encoded. -/
structure Matches (d q : Display) (c c' : Console) : Prop where
  service : c.service = .terminal d
  same : ∃ events log, c' = { c with service := .terminal q, events := events, log := log }
  legible : c.log.isEncodable = false → ∃ text ∈ c.texts, text.isEncodable = false
  written : d.view = .off → d.silent = false → ∀ text ∈ c.texts, text.isEncodable = true

namespace Matches

variable {d q : Display} {c c' : Console}

theorem service' (h : c.Matches d q c') : c'.service = .terminal q := by
  obtain ⟨events, log, rfl⟩ := h.same
  rfl

/-- A change that has nothing to do with what is printed or shown. -/
theorem update (h : c.Matches d q c') (f : Console → Console)
    (hservice : (f c).service = c.service) (htexts : (f c).texts = c.texts)
    (hlog : (f c).log = c.log)
    (hshown : ∀ events log, ∃ events', f { c with
        service := .terminal q, events := events, log := log } =
      { f c with service := .terminal q, events := events', log := log }) :
    (f c).Matches d q (f c') := by
  obtain ⟨events, log, rfl⟩ := h.same
  obtain ⟨events', hf⟩ := hshown events log
  refine ⟨hservice.trans h.service, ⟨events', log, hf⟩, ?_, ?_⟩
  · rw [hlog, htexts]
    exact h.legible
  · rw [htexts]
    exact h.written

/-- Something else is shown. -/
theorem draw (h : c.Matches d q c') (events : List Event) :
    Matches d q { c with events := events } c' := by
  obtain ⟨events', log, rfl⟩ := h.same
  exact ⟨h.service, ⟨events', log, rfl⟩, h.legible, h.written⟩

/-- One more output, which is shown on the first terminal. -/
theorem print (h : c.Matches d q c') {text : CodeText} {left : Option Nat} {events : List Event}
    {log : CodeText} (hlog : log ⊆ c.log ++ text)
    (hwritten : d.view = .off → d.silent = false → text.isEncodable = true) :
    Matches d q { c with outputsLeft := left, texts := text :: c.texts, events := events, log := log }
      { c' with outputsLeft := left, texts := text :: c'.texts } := by
  obtain ⟨events', log', rfl⟩ := h.same
  refine ⟨h.service, ⟨events', log', rfl⟩, ?_, ?_⟩
  · intro hnot
    -- Something in the log cannot be encoded, and it is new or has been there before.
    have hmore : (c.log ++ text).isEncodable = false := by
      rw [CodeText.isEncodable, List.all_eq_false] at hnot ⊢
      exact hnot.imp fun _ hp => ⟨hlog hp.1, hp.2⟩
    rw [CodeText.isEncodable, List.all_append, Bool.and_eq_false_iff] at hmore
    rcases hmore with hold | hnew
    · obtain ⟨t, ht, hbad⟩ := h.legible hold
      exact ⟨t, List.mem_cons_of_mem text ht, hbad⟩
    · exact ⟨text, List.mem_cons_self, hnew⟩
  · intro hview hloud
    exact List.forall_mem_cons.mpr ⟨hwritten hview hloud, h.written hview hloud⟩

end Matches

/-- The run on the terminal `d` that has left `x` was ended by the text, while the run
    on the terminal `q` has come to these callbacks and this console. -/
structure Spoiled (d q : Display) (text : CodeText) (x : Console × List Callback)
    (calls : List Callback) (c : Console) : Prop where
  service : c.service = .terminal q
  calls : x.2 <+: calls
  texts : x.1.texts <:+ c.texts
  fault : ∃ t ∈ x.1.texts, t.isEncodable = false
  first : d.view = .off → x.1.texts.reverse.find? (fun t => !t.isEncodable) = some text

theorem Spoiled.next {d q : Display} {text : CodeText} {x : Console × List Callback}
    {calls calls' : List Callback} {c k : Console} (h : Spoiled d q text x calls c)
    (hcalls : calls <+: calls') (hservice : k.service = c.service) (htexts : c.texts <:+ k.texts) :
    Spoiled d q text x calls' k :=
  ⟨hservice.trans h.service, h.calls.trans hcalls, h.texts.trans htexts, h.fault, h.first⟩

/-- The first text that cannot be encoded. -/
theorem Matches.spoiled {d q : Display} {c c' : Console} {text : CodeText}
    (h : c.Matches d q c') (hview : d.view = .off) (hloud : d.silent = false)
    (htext : text.isEncodable = false) (left : Option Nat) (calls : List Callback) :
    Spoiled d q text ({ c with outputsLeft := left, texts := text :: c.texts }, calls) calls
      { c' with outputsLeft := left, texts := text :: c'.texts } := by
  have hbefore : c.texts.reverse.find? (fun t => !t.isEncodable) = none := by
    rw [List.find?_eq_none]
    intro t ht
    simp [h.written hview hloud t (List.mem_reverse.mp ht)]
  refine ⟨h.service', List.prefix_refl _, ?_, ⟨text, List.mem_cons_self, htext⟩, fun _ => ?_⟩
  · obtain ⟨events, log, rfl⟩ := h.same
    exact List.suffix_refl _
  · show (text :: c.texts).reverse.find? _ = some text
    rw [List.reverse_cons, List.find?_append, hbefore, Option.none_or]
    simp [htext]

/-- The console of a silent terminal after these callbacks: nothing has happened but
    that lines were asked for, if they are typed. -/
structure Mute (q : Display) (calls : List Callback) (c : Console) : Prop where
  service : c.service = .terminal q
  events : c.events =
    if q.interactive then List.replicate (calls.count (.read false)) (.prompt question) else []

end Console

namespace Observed

open Console

/-! ## Callbacks -/

section
variable {γ : Type} (o : Observer γ) {c : Console} {d : Display} (hservice : c.service = .terminal d)

theorem countTick_eq (b : Observed Console γ Unit) (c : Console) (g : γ) :
    countTick b (c, g) = (if (countDown c.ticksLeft).2 then b >>= fun _ => throw .exit else pure () :
      Observed Console γ Unit) ({ c with ticksLeft := (countDown c.ticksLeft).1 }, g) := rfl

include hservice

theorem report_eq (text : String) (g : γ) :
    report o text (c, g) = (output o (.text ("error: " ++ text : String)) >>= fun _ =>
      throw .exit : Observed Console γ Unit) (c, g) := by
  obtain ⟨k, rfl⟩ := exists_eq_terminal hservice
  rfl

theorem tickConsole_eq (w : World) (dots : List Pos) (g : γ) :
    tickConsole o w dots (c, g) = (quietly (showStep d w dots) >>= fun _ =>
      countTick (output o (.text "QUITTING next step!\n"))) ({ c with ticks := c.ticks + 1 }, g) := by
  obtain ⟨k, rfl⟩ := exists_eq_terminal hservice
  rfl

end

section
variable {α β : Type}

/-- The program calls for outputs in the course of the action, and for nothing else. -/
def OnlyPrints (b : Observed Console (List Callback) α) : Prop :=
  ∀ y, ∃ printed : List Payload, (endState (b y)).2 = y.2 ++ printed.map .print

theorem OnlyPrints.pure (x : α) : OnlyPrints (Pure.pure x) := fun y => ⟨[], (List.append_nil y.2).symm⟩

theorem OnlyPrints.throw (e : Stop) :
    OnlyPrints (MonadExcept.throw e : Observed Console (List Callback) α) :=
  fun y => ⟨[], (List.append_nil y.2).symm⟩

theorem OnlyPrints.quietly (a : ConsoleAct α) : OnlyPrints (quietly a) := by
  intro y
  rw [endState_quietly]
  exact ⟨[], (List.append_nil y.2).symm⟩

theorem OnlyPrints.bind {b : Observed Console (List Callback) α}
    {f : α → Observed Console (List Callback) β} (hb : OnlyPrints b) (hf : ∀ x, OnlyPrints (f x)) :
    OnlyPrints (b >>= f) := by
  intro y
  refine endState_bind (P := fun z : Console × List Callback =>
    ∃ printed : List Payload, z.2 = y.2 ++ printed.map .print) ?_ (hb y)
  rintro x z ⟨printed, hz⟩
  obtain ⟨more, hmore⟩ := hf x z
  exact ⟨printed ++ more, by rw [hmore, hz, List.map_append, List.append_assoc]⟩

end

theorem output_onlyPrints (p : Payload) : OnlyPrints (output callbackKeeper p) := by
  intro y
  refine ⟨[p], ?_⟩
  show (endState (quietly (Console.output p) (y.1, y.2 ++ [.print p]))).2 = _
  rw [endState_quietly]
  rfl

theorem report_onlyPrints (text : String) : OnlyPrints (report callbackKeeper text) := by
  intro y
  refine OnlyPrints.bind (.quietly get) (fun c => ?_) y
  cases c.service with
  | bare => exact .quietly _
  | recorder => exact .quietly _
  | terminal d => exact (output_onlyPrints _).bind fun _ => .throw _

theorem countTick_onlyPrints {b : Observed Console (List Callback) Unit} (hb : OnlyPrints b) :
    OnlyPrints (countTick b) := by
  intro y
  rw [countTick_eq]
  split
  · exact hb.bind (fun _ => .throw _) _
  · exact OnlyPrints.pure _ _

theorem tickConsole_onlyPrints (w : World) (dots : List Pos) :
    OnlyPrints (tickConsole callbackKeeper w dots) := by
  intro y
  refine OnlyPrints.bind (.quietly get) (fun c => ?_) y
  cases c.service with
  | bare => exact .pure _
  | recorder => exact (OnlyPrints.quietly _).bind fun _ => countTick_onlyPrints (.pure _)
  | terminal d =>
    exact (OnlyPrints.quietly _).bind fun _ => (OnlyPrints.quietly _).bind fun _ =>
      countTick_onlyPrints (output_onlyPrints _)

theorem endState_read (byCode : Bool) (y : Console × List Callback) :
    endState (read callbackKeeper byCode y) =
      (endState (Console.read byCode y.1), y.2 ++ [.read byCode]) := by
  show endState (quietly (Console.read byCode) (y.1, y.2 ++ [.read byCode])) = _
  rw [endState_quietly]

/-! ## Side by side -/

/-- The same callbacks, and consoles that match. -/
def Beside (d q : Display) (x y : Console × List Callback) : Prop :=
  x.2 = y.2 ∧ Matches d q x.1 y.1

/-- The first run was ended by a text that cannot be encoded. -/
def SpoiledBy (d q : Display) (e : Stop) (x y : Console × List Callback) : Prop :=
  ∃ text, e = .unencodable text ∧ Spoiled d q text x y.2 y.1

section
variable {d q : Display} {α : Type} {a : ConsoleAct α} {b : Observed Console (List Callback) α}

/-- What was ended stays so while the silent terminal is asked for outputs and ticks. -/
theorem SpoiledBy.lasting (hfollows : Follows b a) (hprints : OnlyPrints b)
    (hhushed : ∀ c : Console, c.service = .terminal q → c.Hushed (endState (a c))) {e : Stop}
    {x y : Console × List Callback} (h : SpoiledBy d q e x y) :
    SpoiledBy d q e x (endState (b y)) := by
  obtain ⟨text, he, hspoiled⟩ := h
  obtain ⟨printed, hcalls⟩ := hprints y
  have hquiet := hhushed y.1 hspoiled.service
  rw [(hfollows.ends y).1] at hquiet
  refine ⟨text, he, hspoiled.next ?_ hquiet.service hquiet.texts⟩
  rw [hcalls]
  exact List.prefix_append _ _

/-- And nothing happens there meanwhile. -/
theorem mute_lasting (hfollows : Follows b a) (hprints : OnlyPrints b)
    (hhushed : ∀ c : Console, c.service = .terminal q → c.Hushed (endState (a c)))
    {y : Console × List Callback} (h : Mute q y.2 y.1) :
    Mute q (endState (b y)).2 (endState (b y)).1 := by
  obtain ⟨printed, hcalls⟩ := hprints y
  have hquiet := hhushed y.1 h.service
  rw [(hfollows.ends y).1] at hquiet
  refine ⟨hquiet.service.trans h.service, ?_⟩
  have hnone : (printed.map Callback.print).count (.read false) = 0 := by
    rw [List.count_eq_zero]
    simp
  rw [hquiet.events, h.events, hcalls, List.count_append, hnone, Nat.add_zero]

end

section
variable {d q : Display} (hd : d.OnlyShows) (hq : q.OnlyShows) (hsilent : q.silent = true)
  (hinput : q.interactive = d.interactive)

/-- Actions that both consoles do alike. -/
theorem cutShort_beside {α : Type} {a : ConsoleAct α} {c c' : Console} {calls : List Callback}
    (h : EndAlike (Matches d q) (a c) (a c')) :
    CutShort (Beside d q) (SpoiledBy d q) (quietly a (c, calls)) (quietly a (c', calls)) := by
  unfold quietly
  cases ha : a c with
  | ok r t =>
    obtain ⟨t', ha', ht⟩ := h.ok_left ha
    simp only [ha']
    exact .ok ⟨rfl, ht⟩
  | error e t =>
    obtain ⟨t', ha', ht⟩ := h.error_left ha
    simp only [ha']
    exact .error ⟨rfl, ht⟩

section output
include hd hsilent

/-- An output is the same on both terminals, or the first one cannot show it. -/
theorem output_beside (p : Payload) : InStep (Beside d q) (SpoiledBy d q) (output callbackKeeper p) := by
  refine ⟨?_, .lasting (output_follows _ p) (output_onlyPrints p) fun c hc =>
    output_hushed hsilent hc p⟩
  rintro ⟨c, calls⟩ ⟨c', calls'⟩ ⟨rfl, h⟩
  show CutShort _ _ (quietly (Console.output p) (c, calls ++ [.print p]))
    (quietly (Console.output p) (c', calls ++ [.print p]))
  have hleft' : c'.outputsLeft = c.outputsLeft := by
    obtain ⟨events, log, rfl⟩ := h.same
    rfl
  cases hp : p.render with
  | error f =>
    apply cutShort_beside
    rw [output_of_error h.service hp, output_of_error h.service' hp]
    exact ⟨rfl, h⟩
  | ok text =>
    cases hleft : countDown c.outputsLeft with
    | mk left reached =>
      have hright : countDown c'.outputsLeft = (left, reached) := by rw [hleft', hleft]
      cases reached with
      | true =>
        apply cutShort_beside
        rw [output_at_limit h.service hp hleft, output_at_limit h.service' hp hright]
        exact ⟨rfl, h.update (fun c => { c with outputsLeft := left }) rfl rfl rfl
          fun events _ => ⟨events, rfl⟩⟩
      | false =>
        have hquiet : Console.output p c' =
            .ok () { c' with outputsLeft := left, texts := text :: c'.texts } := by
          rw [output_of_room h.service' hp hright, display_silent hsilent]
          rfl
        obtain ⟨events, log, hshown, hlog, hwritten⟩ | ⟨hview, hloud, htext, hshown⟩ :=
          display_cases hd text { c with outputsLeft := left, texts := text :: c.texts }
        · apply cutShort_beside
          rw [output_of_room h.service hp hleft, hshown, hquiet]
          exact ⟨rfl, h.print hlog hwritten⟩
        · have hspoiled := h.spoiled hview hloud htext left (calls ++ [.print p])
          rw [quietly_of_ok hquiet, quietly_of_error (output_of_room h.service hp hleft ▸ hshown)]
          exact .cut ⟨text, rfl, hspoiled⟩

theorem report_beside (text : String) :
    InStep (Beside d q) (SpoiledBy d q) (report callbackKeeper text) := by
  refine ⟨?_, .lasting (report_follows _ text) (report_onlyPrints text) fun c hc =>
    report_hushed hsilent hc text⟩
  rintro ⟨c, calls⟩ ⟨c', calls'⟩ ⟨rfl, h⟩
  rw [report_eq _ h.service, report_eq _ h.service']
  exact ((output_beside hd hsilent _).bind fun _ => .throw _).abreast ⟨rfl, h⟩

theorem countTick_beside (p : Payload) :
    InStep (Beside d q) (SpoiledBy d q) (countTick (output callbackKeeper p)) := by
  refine ⟨?_, .lasting (countTick_follows (output_follows _ p))
    (countTick_onlyPrints (output_onlyPrints p)) fun c hc => countTick_hushed hsilent hc p⟩
  rintro ⟨c, calls⟩ ⟨c', calls'⟩ ⟨rfl, h⟩
  have hleft : c'.ticksLeft = c.ticksLeft := by
    obtain ⟨events, log, rfl⟩ := h.same
    rfl
  rw [countTick_eq, countTick_eq, hleft]
  have hcounted := h.update (fun k => { k with ticksLeft := (countDown c.ticksLeft).1 }) rfl rfl rfl
    fun events _ => ⟨events, rfl⟩
  split
  · exact ((output_beside hd hsilent p).bind fun _ => .throw _).abreast ⟨rfl, hcounted⟩
  · exact .ok ⟨rfl, hcounted⟩

/-- After a step the first terminal may be unable to show its log. -/
theorem tickConsole_beside (w : World) (dots : List Pos) :
    InStep (Beside d q) (SpoiledBy d q) (tickConsole callbackKeeper w dots) := by
  refine ⟨?_, .lasting (tickConsole_follows _ w dots) (tickConsole_onlyPrints w dots) fun c hc =>
    tick_hushed hsilent hc w dots⟩
  rintro ⟨c, calls⟩ ⟨c', calls'⟩ ⟨rfl, h⟩
  have hticks : c'.ticks = c.ticks := by
    obtain ⟨events, log, rfl⟩ := h.same
    rfl
  have hcounted := h.update (fun k => { k with ticks := c.ticks + 1 }) rfl rfl rfl
    fun events _ => ⟨events, rfl⟩
  have hcount := countTick_beside hd hsilent (.text "QUITTING next step!\n")
  rw [tickConsole_eq _ h.service, tickConsole_eq _ h.service', showStep_silent hsilent, hticks]
  show CutShort _ _ _ (countTick (output callbackKeeper (.text "QUITTING next step!\n"))
    ({ c' with ticks := c.ticks + 1 }, calls))
  obtain ⟨events, hshown | ⟨hview, hlog, hshown⟩⟩ :=
    showStep_cases hd w dots { c with ticks := c.ticks + 1 }
  · rw [bind_of_ok (quietly_of_ok hshown)]
    exact hcount.abreast ⟨rfl, hcounted.draw events⟩
  · rw [bind_of_error (quietly_of_error hshown)]
    refine .cut (hcount.lasting ⟨_, rfl, h.service', List.prefix_refl _, ?_, h.legible hlog, ?_⟩)
    · obtain ⟨events, log, rfl⟩ := h.same
      exact List.suffix_refl _
    · intro hoff
      rw [hview] at hoff
      cases hoff

end output

section read
include hd hq hinput

theorem read_beside (byCode : Bool) :
    InStep (Beside d q) (SpoiledBy d q) (read callbackKeeper byCode) := by
  constructor
  · rintro ⟨c, calls⟩ ⟨c', calls'⟩ ⟨rfl, h⟩
    show CutShort _ _ (quietly (Console.read byCode) (c, calls ++ [.read byCode]))
      (quietly (Console.read byCode) (c', calls ++ [.read byCode]))
    apply cutShort_beside
    rw [read_eq h.service, read_eq h.service', if_neg hd.not_windowed, if_neg hq.not_windowed]
    refine askInput_alike ?_ ?_ ?_ hinput c c' h
    · intro c c' h
      obtain ⟨events, log, rfl⟩ := h.same
      rfl
    · intro c c' rest h
      exact h.update (fun c => { c with input := rest }) rfl rfl rfl fun events _ => ⟨events, rfl⟩
    · intro c c' h
      exact h.update (fun c => { c with events := questions d byCode ++ c.events }) rfl rfl rfl
        fun _ _ => ⟨_, rfl⟩
  · rintro e x y ⟨text, he, h⟩
    obtain ⟨rest, hread⟩ := Console.endState_read h.service hq.not_windowed byCode
    rw [endState_read, hread]
    exact ⟨text, he, h.next (List.prefix_append _ _) rfl (List.suffix_refl _)⟩

end read

include hd hq hsilent hinput in
/-- The run on a terminal that only shows and the run on a silent one. -/
theorem views_lockstep :
    Lockstep callbackKeeper (Alongside fun calls calls' c c' => calls = calls' ∧ Matches d q c c')
      (Outlasts fun e x calls c =>
        ∃ text, e = .unencodable text ∧ Spoiled d q text (x.1.console, x.2) calls c) :=
  lockstep_of_console (F := fun e x calls c => ∃ text, e = .unencodable text ∧
      Spoiled d q text x calls c)
    ⟨fun _ _ _ _ => rfl, fun _ _ => rfl, fun _ _ _ => rfl⟩ (fun _ _ => rfl) (fun _ _ => rfl)
    (output_beside hd hsilent) (read_beside hd hq hinput) (report_beside hd hsilent)
    (tickConsole_beside hd hsilent)

include hq hsilent in
/-- Nothing happens at a silent terminal, but that lines are asked for. -/
theorem mute_lockstep :
    Lockstep callbackKeeper (Alongside fun _ _ _ _ => False) (Outlasts fun _ _ => Mute q) := by
  have hprinting : ∀ {a : ConsoleAct Unit} {b : Observed Console (List Callback) Unit},
      Follows b a → OnlyPrints b →
      (∀ c : Console, c.service = .terminal q → c.Hushed (endState (a c))) →
      InStep (fun _ _ => False) (fun _ _ y => Mute q y.2 y.1) b := by
    intro a b hfollows hprints hhushed
    exact ⟨False.elim, mute_lasting hfollows hprints hhushed⟩
  refine lockstep_of_console (F := fun _ _ => Mute q)
    ⟨fun _ _ _ _ => rfl, fun _ _ => rfl, fun _ _ _ => rfl⟩ (fun _ _ => rfl) (fun _ _ => rfl)
    ?_ ?_ ?_ ?_
  · exact fun p => hprinting (output_follows _ p) (output_onlyPrints p) fun c hc =>
      output_hushed hsilent hc p
  · intro byCode
    refine ⟨False.elim, ?_⟩
    intro e x y h
    obtain ⟨rest, hread⟩ := Console.endState_read h.service hq.not_windowed byCode
    rw [endState_read, hread]
    refine ⟨h.service, ?_⟩
    show questions q byCode ++ y.1.events = _
    rw [h.events]
    unfold questions
    cases q.interactive with
    | false => rfl
    | true =>
      cases byCode with
      | true => simp
      | false => simp [List.replicate_succ]
  · exact fun text => hprinting (report_follows _ text) (report_onlyPrints text) fun c hc =>
      report_hushed hsilent hc text
  · exact fun w dots => hprinting (tickConsole_follows _ w dots) (tickConsole_onlyPrints w dots)
      fun c hc => tick_hushed hsilent hc w dots

end

end Observed

/-! ## Whole executions -/

namespace Machine

/-- The callbacks of an execution, the first one first. -/
def callbacks (shelf : Shelf) (program : String) (parallel : Bool) (console : Console)
    (traced fuel : Nat) : List Callback :=
  observe callbackKeeper [] shelf program parallel console traced fuel

/-- What an execution on the terminal `d` that makes these callbacks has in common with
    the same execution on a silent terminal. -/
structure OnlyShown (d : Display) (shown quiet : Machine × Option Stop)
    (calls calls' : List Callback) : Prop where
  /-- If all that there is to be printed can be encoded, they are the same. -/
  same : (∀ text ∈ quiet.1.scene.console.texts, text.isEncodable = true) →
    calls = calls' ∧ SameCourse shown quiet
  /-- If they are not the same, the one that is shown has ended early with a text that
      cannot be encoded. -/
  spoiled : ¬ (calls = calls' ∧ SameCourse shown quiet) →
    ∃ text, shown.2 = some (.unencodable text) ∧ calls <+: calls' ∧
      shown.1.scene.console.texts <:+ quiet.1.scene.console.texts ∧
      ∃ t ∈ shown.1.scene.console.texts, t.isEncodable = false
  /-- A terminal that just prints ends it at the first such text. -/
  first : d.view = .off → d.silent = false → ∀ text,
    quiet.1.scene.console.texts.reverse.find? (fun t => !t.isEncodable) = some text →
    shown.2 = some (.unencodable text)

section
variable {d q : Display}

theorem SameCourse.of_matches {x y : Machine × Option Stop} (hends : x.2 = y.2)
    (hdots : x.1.scene.dots = y.1.scene.dots)
    (h : x.1.scene.console.Matches d q y.1.scene.console) : SameCourse x y := by
  obtain ⟨events, log, hsame⟩ := h.same
  refine ⟨hends, hdots, ?_, ?_, ?_⟩
  all_goals rw [hsame]

/-- The executions go side by side to their end. -/
theorem OnlyShown.of_matches {shown quiet : Machine × Option Stop} {calls calls' : List Callback}
    (hends : shown.2 = quiet.2) (hdots : shown.1.scene.dots = quiet.1.scene.dots)
    (hcalls : calls = calls') (h : shown.1.scene.console.Matches d q quiet.1.scene.console) :
    OnlyShown d shown quiet calls calls' := by
  have hsame : calls = calls' ∧ SameCourse shown quiet := ⟨hcalls, .of_matches hends hdots h⟩
  refine ⟨fun _ => hsame, fun hnot => absurd hsame hnot, ?_⟩
  intro hview hloud text htext
  -- Everything could be written, so there is no such text.
  have hmem := List.mem_reverse.mp (List.mem_of_find?_eq_some htext)
  rw [← hsame.2.texts] at hmem
  have hbad := List.find?_some htext
  simp [h.written hview hloud text hmem] at hbad

/-- The one that is shown has come to an early end. -/
theorem OnlyShown.of_spoiled {shown quiet : Machine × Option Stop} {calls calls' : List Callback}
    {text : CodeText} (hends : shown.2 = some (.unencodable text))
    (h : Console.Spoiled d q text (shown.1.scene.console, calls) calls' quiet.1.scene.console) :
    OnlyShown d shown quiet calls calls' := by
  refine ⟨?_, fun _ => ⟨text, hends, h.calls, h.texts, h.fault⟩, ?_⟩
  · intro hall
    obtain ⟨t, ht, hbad⟩ := h.fault
    rw [hall t (h.texts.subset ht)] at hbad
    cases hbad
  · intro hview _ text' htext'
    obtain ⟨more, hmore⟩ := h.texts
    rw [← hmore, List.reverse_append, List.find?_append, h.first hview] at htext'
    cases htext'
    exact hends

theorem start_matches (hd : d.OnlyShows) (hq : q.OnlyShows) (ticks outputs : Int)
    (input : List Char) (keys : List Int) (typed : List String) :
    (Console.start (.terminal d) ticks outputs input keys typed).Matches d q
      (.start (.terminal q) ticks outputs input keys typed) := by
  unfold Console.start
  simp only [if_neg hd.not_windowed, if_neg hq.not_windowed]
  refine ⟨rfl, ⟨[], [], rfl⟩, ?_, ?_⟩
  · intro hlog
    cases hlog
  · intro _ _ text htext
    cases htext

/-- On a terminal that only shows, what is shown has no part in what happens, as far as
    it can be encoded.  Whatever the program, its files, its input, the schedule and the
    limits are, such a terminal gets the same callbacks as a silent one and the execution
    takes the same course on both, unless a text that cannot be encoded ends it on the
    first.  And nothing is written to the silent one while the program runs, but a
    question for every line that is to be typed. -/
theorem views_only_observe (hd : d.OnlyShows) (hq : q.OnlyShows) (hsilent : q.silent = true)
    (hinput : q.interactive = d.interactive) (shelf : Shelf) (program : String) (parallel : Bool)
    (ticks outputs : Int) (input : List Char) (keys : List Int) (typed : List String)
    (traced fuel : Nat) :
    let shown := Console.start (.terminal d) ticks outputs input keys typed
    let quiet := Console.start (.terminal q) ticks outputs input keys typed
    OnlyShown d (execute shelf program parallel shown traced fuel)
        (execute shelf program parallel quiet traced fuel)
        (callbacks shelf program parallel shown traced fuel)
        (callbacks shelf program parallel quiet traced fuel) ∧
      ∀ w, World.build shelf program = .ok w →
        (execute shelf program parallel quiet traced fuel).1.scene.console.events =
          if q.interactive then
            List.replicate ((callbacks shelf program parallel quiet traced fuel).count (.read false))
              (.prompt Console.question)
          else [] := by
  intro shown quiet
  unfold callbacks
  have hmatches := start_matches hd hq ticks outputs input keys typed
  have hc : shown.Unwindowed := ⟨d, rfl, hd.not_windowed⟩
  have hc' : quiet.Unwindowed := ⟨q, rfl, hq.not_windowed⟩
  constructor
  · cases hbuild : World.build shelf program with
    | error f =>
      have hshown := @execute_of_error shelf program parallel shown traced fuel f hbuild
      have hquiet := @execute_of_error shelf program parallel quiet traced fuel f hbuild
      refine .of_matches (q := q) (hshown.1.trans hquiet.1.symm) ?_ ?_ ?_
      · rw [hshown.2, hquiet.2]
      · rw [observe_of_error hbuild, observe_of_error hbuild]
      · rw [hshown.2, hquiet.2]
        exact hmatches.update (fun c => { c with
          events := if f.notice.isEmpty then c.events else .write f.notice :: c.events })
          rfl rfl rfl fun _ _ => ⟨_, rfl⟩
    | ok w =>
      obtain ⟨hends, hdots, hcalls, hsame⟩ | ⟨_, hends, text, rfl, hspoiled⟩ :=
        execute_lockstep (Observed.views_lockstep hd hq hsilent hinput) hbuild hc hc' [] []
          ⟨rfl, rfl, hmatches⟩
      · dsimp only at hdots hcalls hsame
        exact .of_matches hends hdots hcalls hsame
      · dsimp only at hspoiled
        exact .of_spoiled hends hspoiled
  · intro w hbuild
    have hmute : Console.Mute q [] quiet := by
      refine ⟨rfl, ?_⟩
      show (Console.start (.terminal q) ticks outputs input keys typed).events = _
      simp [Console.start, if_neg hq.not_windowed]
    obtain ⟨-, hend⟩ := execute_observed callbackKeeper [] hbuild hc' parallel traced fuel
    have hlast := ((Observed.mute_lockstep hq hsilent).course w parallel fuel).lasting
      (e := .exit) (s := (before quiet traced, [])) (t := (before quiet traced, [])) hmute
    rw [← hend] at hlast
    dsimp only [Observed.Outlasts] at hlast
    exact hlast.events

end

/-- The drawing is shown after each step, with a pause of a second. -/
def slowView : Display :=
  { view := .plain, silent := false, columns := 80, lines := 25, viewLines := 16,
    autostep := .int 1, interactive := true }

/-- Nothing is shown, and lines are typed. -/
def noView : Display :=
  { view := .off, silent := true, columns := 80, lines := 25, viewLines := 16, autostep := .int 0,
    interactive := true }

/-- The input 7, 8 and 0. -/
def echoInput : List Char := ['7', '\n', '8', '\n', '0', '\n']

/-- The run ends at the second output.  Both terminals are called for the 7 and for the 8,
    and on the silent one there are two questions to be seen. -/
theorem views_at_echoes :
    callbacks ⟨⟨[]⟩, []⟩ echoes true (.start (.terminal slowView) 0 2 echoInput [] []) 0 40 =
        [.read false, .print (.text "7\n"), .read false, .print (.text "8\n")] ∧
      SameCourse
        (execute ⟨⟨[]⟩, []⟩ echoes true (.start (.terminal slowView) 0 2 echoInput [] []) 0 40)
        (execute ⟨⟨[]⟩, []⟩ echoes true (.start (.terminal noView) 0 2 echoInput [] []) 0 40) ∧
      (execute ⟨⟨[]⟩, []⟩ echoes true (.start (.terminal slowView) 0 2 echoInput [] []) 0 40).2 =
        some .exit ∧
      (execute ⟨⟨[]⟩, []⟩ echoes true
          (.start (.terminal noView) 0 2 echoInput [] []) 0 40).1.scene.console.events =
        [.prompt Console.question, .prompt Console.question] := by
  have hcalls : callbacks ⟨⟨[]⟩, []⟩ echoes true (.start (.terminal noView) 0 2 echoInput [] []) 0
      40 = [.read false, .print (.text "7\n"), .read false, .print (.text "8\n")] := by
    decide +kernel
  have htexts : (execute ⟨⟨[]⟩, []⟩ echoes true (.start (.terminal noView) 0 2 echoInput [] []) 0
      40).1.scene.console.texts = [CodeText.ofString "7\n"] := by
    decide +kernel
  have hend : (execute ⟨⟨[]⟩, []⟩ echoes true (.start (.terminal noView) 0 2 echoInput [] []) 0
      40).2 = some .exit := by
    decide +kernel
  have hbuild : (World.build ⟨⟨[]⟩, []⟩ echoes).toOption.isSome = true := by decide +kernel
  obtain ⟨hshown, hquiet⟩ := views_only_observe (d := slowView) (q := noView) (.inr ⟨rfl, .inr rfl⟩)
    (.inl rfl) rfl rfl ⟨⟨[]⟩, []⟩ echoes true 0 2 echoInput [] [] 0 40
  have hevents := hquiet _ (World.build_of_isSome hbuild)
  rw [hcalls] at hevents
  obtain ⟨hsame, hcourse⟩ := hshown.same (by rw [htexts]; decide)
  exact ⟨hsame.trans hcalls, hcourse, hcourse.ends.trans hend, hevents.trans (by decide)⟩

/-- A dot that prints the code point 55296, and then this number. -/
def loneSurrogate : String := ".-#55296-$a#-$#"

/-- A terminal with nothing to read. -/
def idleConsole (d : Display) : Console := .start (.terminal d) 0 0 [] [] []

/-- The code point is a surrogate.  On a terminal that just prints it ends the run, while
    on a silent one the run goes on to print the number.  And a silent terminal at which
    a line is typed is written to. -/
theorem views_interfere :
    (execute ⟨⟨[]⟩, []⟩ loneSurrogate true (idleConsole plainDisplay) 0 20).2 =
        some (.unencodable [.surrogate 0, .char '\n']) ∧
      (execute ⟨⟨[]⟩, []⟩ loneSurrogate true (idleConsole noView) 0 20).2 = some .exit ∧
      callbacks ⟨⟨[]⟩, []⟩ loneSurrogate true (idleConsole plainDisplay) 0 20 =
        [.print (.text [.surrogate 0, .char '\n'])] ∧
      callbacks ⟨⟨[]⟩, []⟩ loneSurrogate true (idleConsole noView) 0 20 =
        [.print (.text [.surrogate 0, .char '\n']), .print (.text "55296\n")] ∧
      (execute ⟨⟨[]⟩, []⟩ ".-#?-$#" true
        (.start (.terminal noView) 0 0 ['5', '\n'] [] []) 0 20).1.scene.console.events =
        [.prompt "?: "] := by
  decide +kernel

end Machine

end DotPaths
