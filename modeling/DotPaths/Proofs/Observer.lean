import DotPaths.Proofs.Alike
import DotPaths.Proofs.Run

/-! # Observers

    An observer follows a run and keeps notes of its own.  It is told of every
    request to the console, also of one that stops the run, of every step of a
    dot, and of the dots that are taken away.

    There is one observed run, and the observer is its parameter.  Without the
    notes its actions are those of the run itself; so the notes are facts about
    the run, and the observer does not interfere.
-/

namespace DotPaths

/-! ## How actions end -/

/-- The state in which an action ends, whether it completes or stops. -/
def endState {ε σ α : Type} : EStateM.Result ε σ α → σ
  | .ok _ s => s
  | .error _ s => s

/-- Why an action has stopped, if it has. -/
def stop? {σ α : Type} : EStateM.Result Stop σ α → Option Stop
  | .ok _ _ => none
  | .error e _ => some e

/-- What holds at the end of an action, and is kept by what follows, holds at the
    end of both. -/
theorem endState_bind {σ α β : Type} {P : σ → Prop} {b : EStateM Stop σ α}
    {g : α → EStateM Stop σ β} {s : σ} (hg : ∀ x t, P t → P (endState (g x t)))
    (h : P (endState (b s))) : P (endState ((b >>= g) s)) := by
  cases hb : b s with
  | ok x t =>
    rw [hb] at h
    rw [bind_of_ok hb]
    exact hg x t h
  | error e t =>
    rw [hb] at h
    rw [bind_of_error hb]
    exact h

theorem endState_onConsole {α : Type} (a : ConsoleAct α) (s : Scene) :
    endState (Scene.onConsole a s) = { s with console := endState (a s.console) } := by
  unfold Scene.onConsole
  cases a s.console with
  | ok x c => rfl
  | error e c => rfl

/-- Someone who keeps notes of type `γ`. -/
structure Observer (γ : Type) where
  /-- The console is asked to print. -/
  called : Payload → γ → γ := fun _ g => g
  /-- The console is asked for a number, or for the code of a character. -/
  asked : Bool → γ → γ := fun _ g => g
  /-- The console is about to be told that a step is over. -/
  ticked : Scene → γ → γ := fun _ g => g
  /-- The dot with this number has acted, from the first scene to the second. -/
  stepped : Nat → Scene → Scene → γ → γ := fun _ _ _ g => g
  /-- A dot that runs on has moved, or all dots have; also if this has stopped the
      run. -/
  moved : Scene → γ → γ := fun _ g => g
  /-- The dot with this number is taken away. -/
  erased : Nat → γ → γ := fun _ g => g
  /-- The dead ones among the first so many of these dots are taken away. -/
  swept : Nat → List Dot → γ → γ := fun _ _ g => g

namespace Observer

variable {γ : Type} (o : Observer γ)

/-- The observer takes no note of requests to print and to read. -/
structure IsDeaf : Prop where
  called : ∀ p g, o.called p g = g
  asked : ∀ byCode g, o.asked byCode g = g

/-- The observer takes no note of what becomes of a single dot. -/
structure IsBlind : Prop where
  stepped : ∀ i s t g, o.stepped i s t g = g
  erased : ∀ i g, o.erased i g = g
  swept : ∀ n dots g, o.swept n dots g = g

end Observer

/-- Doing something while an observer keeps notes. -/
abbrev Observed (σ γ : Type) := EStateM Stop (σ × γ)

namespace Observed

/-! ## Actions with notes -/

section
variable {σ γ α β δ : Type}

/-- Do something of which no note is taken. -/
def quietly (a : EStateM Stop σ α) : Observed σ γ α := fun s =>
  match a s.1 with
  | .ok x t => .ok x (t, s.2)
  | .error e t => .error e (t, s.2)

/-- Take a note. -/
def note (f : σ → γ → γ) : Observed σ γ Unit := modify fun s => (s.1, f s.1 s.2)

/-- Do something, and take a note at its end, also if it stops. -/
def noting (f : σ → γ → γ) (b : Observed σ γ α) : Observed σ γ α := fun s =>
  match b s with
  | .ok x t => .ok x (t.1, f t.1 t.2)
  | .error e t => .error e (t.1, f t.1 t.2)

/-- A result without the notes. -/
def plain : EStateM.Result Stop (σ × γ) α → EStateM.Result Stop σ α
  | .ok x s => .ok x s.1
  | .error e s => .error e s.1

/-- The notes at the end of an action, whether it completes or stops. -/
def notes (r : EStateM.Result Stop (σ × γ) α) : γ := (endState r).2

theorem quietly_of_ok {a : EStateM Stop σ α} {x : α} {s t : σ} {g : γ} (h : a s = .ok x t) :
    quietly a (s, g) = .ok x (t, g) := by
  unfold quietly
  simp only [h]

theorem quietly_of_error {a : EStateM Stop σ α} {e : Stop} {s t : σ} {g : γ}
    (h : a s = .error e t) : quietly a (s, g) = .error e (t, g) := by
  unfold quietly
  simp only [h]

theorem quietly_ok_iff {a : EStateM Stop σ α} {x : α} {s t : σ × γ} :
    quietly a s = .ok x t ↔ a s.1 = .ok x t.1 ∧ t.2 = s.2 := by
  unfold quietly
  cases a s.1 with
  | ok y r =>
    constructor
    · intro h
      cases h
      exact ⟨rfl, rfl⟩
    · intro ⟨h, hnotes⟩
      cases h
      rw [← hnotes]
  | error e r => simp

theorem quietly_error {a : EStateM Stop σ α} {e : Stop} {s t : σ × γ}
    (h : quietly a s = .error e t) : a s.1 = .error e t.1 ∧ t.2 = s.2 := by
  unfold quietly at h
  cases ha : a s.1 with
  | ok y r =>
    rw [ha] at h
    cases h
  | error e' r =>
    rw [ha] at h
    cases h
    exact ⟨rfl, rfl⟩

theorem endState_quietly (a : EStateM Stop σ α) (s : σ × γ) :
    endState (quietly a s) = (endState (a s.1), s.2) := by
  unfold quietly
  cases a s.1 with
  | ok x t => rfl
  | error e t => rfl

theorem noting_of_ok {f : σ → γ → γ} {b : Observed σ γ α} {x : α} {s t : σ × γ}
    (h : b s = .ok x t) : noting f b s = .ok x (t.1, f t.1 t.2) := by
  unfold noting
  rw [h]

theorem noting_of_error {f : σ → γ → γ} {b : Observed σ γ α} {e : Stop} {s t : σ × γ}
    (h : b s = .error e t) : noting f b s = .error e (t.1, f t.1 t.2) := by
  unfold noting
  rw [h]

/-- A note that says nothing new. -/
theorem note_eq_pure {f : σ → γ → γ} (hf : ∀ s g, f s g = g) :
    (note f : Observed σ γ Unit) = pure () := by
  funext s
  show EStateM.Result.ok () (s.1, f s.1 s.2) = .ok () s
  rw [hf]

theorem noting_eq_self {f : σ → γ → γ} (hf : ∀ s g, f s g = g) (b : Observed σ γ α) :
    noting f b = b := by
  funext s
  unfold noting
  cases b s with
  | ok x t => simp only [hf]
  | error e t => simp only [hf]

/-- The observed action is `a` when the notes are left aside. -/
def Follows (b : Observed σ γ α) (a : EStateM Stop σ α) : Prop :=
  ∀ s, plain (b s) = a s.1

namespace Follows

variable {a : EStateM Stop σ α} {b : Observed σ γ α}

theorem pure (x : α) : Follows (Pure.pure x : Observed σ γ α) (Pure.pure x) := fun _ => rfl

theorem throw (e : Stop) :
    Follows (MonadExcept.throw e : Observed σ γ α) (MonadExcept.throw e) := fun _ => rfl

theorem quietly (a : EStateM Stop σ α) : Follows (quietly a : Observed σ γ α) a := by
  intro s
  unfold Observed.quietly
  cases a s.1 with
  | ok x t => rfl
  | error e t => rfl

theorem bind {f : α → EStateM Stop σ β} {g : α → Observed σ γ β} (hb : Follows b a)
    (hg : ∀ x, Follows (g x) (f x)) : Follows (b >>= g) (a >>= f) := by
  intro s
  show plain (EStateM.bind b g s) = EStateM.bind a f s.1
  unfold EStateM.bind
  rw [← hb s]
  cases b s with
  | ok x t => exact hg x t
  | error e t => rfl

/-- A note changes nothing. -/
theorem note_bind {f : σ → γ → γ} (hb : Follows b a) : Follows (note f >>= fun _ => b) a := by
  intro s
  exact hb (s.1, f s.1 s.2)

/-- Nor does a note at the end. -/
theorem bind_note {f : σ → γ → γ} (hb : Follows b a) :
    Follows (b >>= fun x => note f >>= fun _ => Pure.pure x) a := by
  have h := hb.bind (f := Pure.pure) fun x => note_bind (f := f) (pure x)
  rw [bind_pure] at h
  exact h

theorem noting {f : σ → γ → γ} (hb : Follows b a) : Follows (noting f b) a := by
  intro s
  rw [← hb s]
  unfold Observed.noting
  cases b s with
  | ok x t => rfl
  | error e t => rfl

/-- Nor does a look at the state for a note. -/
theorem look_bind {g : σ → Observed σ γ α} (hg : ∀ t, Follows (g t) a) :
    Follows (Observed.quietly get >>= g) a := by
  intro s
  exact hg s.1 s

theorem forM {f : δ → EStateM Stop σ PUnit} {g : δ → Observed σ γ PUnit}
    (hg : ∀ x, Follows (g x) (f x)) (l : List δ) : Follows (l.forM g) (l.forM f) := by
  induction l with
  | nil => exact pure _
  | cons x l ih =>
    simp only [List.forM_eq_forM, List.forM_cons] at ih ⊢
    exact (hg x).bind fun _ => ih

/-- The state after an observed action that completes is that after the action. -/
theorem ok {x : α} {s t : σ × γ} (hb : Follows b a) (h : b s = .ok x t) : a s.1 = .ok x t.1 := by
  rw [← hb s, h]
  rfl

theorem error {e : Stop} {s t : σ × γ} (hb : Follows b a) (h : b s = .error e t) :
    a s.1 = .error e t.1 := by
  rw [← hb s, h]
  rfl

/-- An observed action ends where the action does, and for the same reason. -/
theorem ends (hb : Follows b a) (s : σ × γ) :
    endState (a s.1) = (endState (b s)).1 ∧ stop? (a s.1) = stop? (b s) := by
  rw [← hb s]
  cases b s with
  | ok x t => exact ⟨rfl, rfl⟩
  | error e t => exact ⟨rfl, rfl⟩

end Follows

/-- The action leaves the notes as they are. -/
def Still (b : Observed σ γ α) : Prop := ∀ s, notes (b s) = s.2

namespace Still

variable {b : Observed σ γ α}

theorem pure (x : α) : Still (Pure.pure x : Observed σ γ α) := fun _ => rfl

theorem throw (e : Stop) : Still (MonadExcept.throw e : Observed σ γ α) := fun _ => rfl

theorem quietly (a : EStateM Stop σ α) : Still (Observed.quietly a : Observed σ γ α) := by
  intro s
  unfold notes
  rw [endState_quietly]

theorem note {f : σ → γ → γ} (hf : ∀ s g, f s g = g) : Still (Observed.note f) := by
  rw [note_eq_pure hf]
  exact pure ()

theorem bind {f : α → Observed σ γ β} (hb : Still b) (hf : ∀ x, Still (f x)) :
    Still (b >>= f) := by
  intro s
  refine endState_bind (P := fun t : σ × γ => t.2 = s.2) ?_ (hb s)
  exact fun x t ht => (hf x t).trans ht

theorem forM {f : δ → Observed σ γ PUnit} (hf : ∀ x, Still (f x)) (l : List δ) :
    Still (l.forM f) := by
  induction l with
  | nil => exact pure _
  | cons x l ih =>
    simp only [List.forM_eq_forM, List.forM_cons] at ih ⊢
    exact (hf x).bind fun _ => ih

/-- An action that leaves the notes alone is the action without the observer. -/
theorem eq_quietly {a : EStateM Stop σ α} (hb : Still b) (hf : Follows b a) :
    b = Observed.quietly a := by
  funext s
  have hnotes := hb s
  have hplain := hf s
  unfold Observed.quietly
  rw [← hplain]
  cases h : b s with
  | ok x t =>
    rw [h] at hnotes
    show EStateM.Result.ok x t = .ok x (t.1, s.2)
    rw [← hnotes]
    rfl
  | error e t =>
    rw [h] at hnotes
    show EStateM.Result.error e t = .error e (t.1, s.2)
    rw [← hnotes]
    rfl

end Still

end

/-! ## The console -/

open Scene

section
variable {γ : Type} (o : Observer γ)

/-- Print. -/
def output (p : Payload) : Observed Console γ Unit := do
  note fun _ => o.called p
  quietly (Console.output p)

/-- Read. -/
def read (byCode : Bool) : Observed Console γ Int := do
  note fun _ => o.asked byCode
  quietly (Console.read byCode)

/-- Count a tick. -/
def countTick (atLimit : Observed Console γ Unit) : Observed Console γ Unit := do
  let c ← quietly get
  let (left, reached) := Console.countDown c.ticksLeft
  quietly (set { c with ticksLeft := left })
  if reached then
    atLimit
    throw .exit

/-- What a terminal shows between two steps, and how it waits. -/
def showStep (d : Display) (w : World) (dots : List Pos) : ConsoleAct Unit := do
  if d.view ≠ .off && !d.silent then
    Console.draw d w dots
    Console.waitStep d

/-- A step is over. -/
def tickConsole (w : World) (dots : List Pos) : Observed Console γ Unit := do
  match (← quietly get).service with
  | .bare => pure ()
  | .recorder =>
    quietly (modify fun c => { c with ticks := c.ticks + 1 })
    countTick (pure ())
  | .terminal d =>
    quietly (modify fun c => { c with ticks := c.ticks + 1 })
    quietly (showStep d w dots)
    countTick (output o (.text "QUITTING next step!\n"))

/-- Report that something is wrong with the program. -/
def report (text : String) : Observed Console γ Unit := do
  match (← quietly get).service with
  | .bare => quietly (Console.refuse .error)
  | .recorder => quietly (modify fun c => { c with reports := text :: c.reports })
  | .terminal _ =>
    output o (.text ("error: " ++ text : String))
    throw .exit

/-- Do something with the console of a scene. -/
def onConsole {α : Type} (a : Observed Console γ α) : Observed Scene γ α := fun s =>
  match a (s.1.console, s.2) with
  | .ok x c => .ok x ({ s.1 with console := c.1 }, c.2)
  | .error e c => .error e ({ s.1 with console := c.1 }, c.2)

/-- A step is over, and the dots may be traced. -/
def tick (w : World) : Observed Scene γ Unit := do
  note o.ticked
  quietly traceTick
  let s ← quietly get
  onConsole (tickConsole o w (positions s.dots))

/-! ## Turns -/

/-- Perform the deed of the dot with number `i` on the cell `c`. -/
def perform (c : Cell) (i : Nat) : Deed → Observed Scene γ Unit
  | .print p before after => do
    quietly (setDot i before)
    onConsole (output o p)
    quietly (setDot i after)
  | .read byCode after => do
    let n ← onConsole (read o byCode)
    quietly (setDot i (after n))
  | deed => quietly (Turn.perform c i deed)

/-- The dot with number `i` acts. -/
def act (w : World) (i : Nat) : Observed Scene γ Unit := do
  let d ← quietly (dotAt i)
  match w.cell? d.pos with
  | none => quietly (setDot i d.die)
  | some c =>
    let s ← quietly get
    perform o c i (d.deed w c)
    quietly (Turn.settle w i)
    note (o.stepped i s)

/-- The end of a step: the dot dies if it is lost, or it can go on. -/
def goesOn (w : World) (i : Nat) : Act Bool := do
  let d ← dotAt i
  if d.isDead then pure false
  else if Turn.isLost w d then
    setDot i d.die
    pure false
  else pure !d.phase.isWaiting

/-- The dot with number `i` chooses and acts on the cell `c`. -/
def step (w : World) (i : Nat) (c : Cell) : Observed Scene γ Bool := do
  let d ← quietly (dotAt i)
  match d.choose c with
  | .error why => throw why
  | .ok phase => quietly (setDot i { d with phase := phase })
  let d ← quietly (dotAt i)
  let s ← quietly get
  perform o c i (d.deed w c)
  let goes ← quietly (goesOn w i)
  note (o.stepped i s)
  pure goes

/-- The dot with number `i` takes steps, at most `fuel` of them. -/
def runOn (w : World) (i : Nat) : Nat → List Pos → Observed Scene γ Unit
  | 0, _ => pure ()
  | fuel + 1, past => do
    tick o w
    let d ← quietly (dotAt i)
    if past.contains d.pos then pure ()
    else
      match w.cell? d.pos with
      | none => noting o.moved (quietly (setDot i d.die))
      | some c =>
        if ← noting o.moved (step o w i c) then runOn w i fuel (d.pos :: past)

/-! ## Ticks and runs -/

/-- The first `n` dots choose and act. -/
def moveAll (w : World) (n : Nat) : Observed Scene γ Unit := noting o.moved do
  quietly (Machine.chooseAll w n)
  (List.range n).forM (act o w)

/-- The dead ones among the first `n` dots are taken away. -/
def sweepDots (n : Nat) : Observed Scene γ Unit := do
  note fun s => o.swept n s.dots
  quietly (modify fun s => { s with dots := Machine.sweep n s.dots })

/-- All dots move at once. -/
def parallelTick (w : World) : Observed Scene γ Unit := do
  let n := (← quietly get).dots.length
  moveAll o w n
  sweepDots o n
  tick o w

/-- The dot with number `i` is taken away. -/
def eraseDot (i : Nat) : Observed Scene γ Unit := do
  note fun _ => o.erased i
  quietly (modify fun s => { s with dots := s.dots.eraseIdx i })

/-- The turns of `n` dots from number `i` on, each dot running on. -/
def turns (w : World) : Nat → Nat → Observed Scene γ Unit
  | 0, _ => pure ()
  | n + 1, i => do
    runOn o w i (w.area + 1) []
    let d ← quietly (dotAt i)
    if d.isDead then
      eraseDot o i
      turns w n i
    else turns w n (i + 1)

/-- One dot after the other has its turn. -/
def asyncTick (w : World) : Observed Scene γ Unit := do
  turns o w (← quietly get).dots.length 0

/-- One tick of the schedule. -/
def tickBy (w : World) (parallel : Bool) : Observed Scene γ Unit :=
  if parallel then parallelTick o w else asyncTick o w

/-- Tick until no dot is left, at most `fuel` times. -/
def loop (w : World) (parallel : Bool) : Nat → Observed Scene γ Unit
  | 0 => pure ()
  | fuel + 1 => do
    if (← quietly get).dots.isEmpty then throw .exit
    tickBy o w parallel
    loop w parallel fuel

/-- Put a new dot into the scene. -/
def addDot (w : World) (d : Dot) (dir : Option Pos) : Observed Scene γ Unit := do
  let phase ← quietly (orFail d.phase.renewed)
  let d := { d with value := d.value.orZero, id := d.id.orZero, phase := phase }
  match dir.orElse fun _ => Dot.findDirection? w d.pos with
  | some dir => quietly (addDots [{ d with dir := dir }])
  | none =>
    onConsole (report o ("dot cannot determine location...\nx: " ++ toString d.pos.x ++
      ", y: " ++ toString d.pos.y))
    quietly (addDots [{ d with dir := ⟨0, 0⟩ }.die])

/-- Put a dot at every starting point, and no others. -/
def setUp (w : World) : Observed Scene γ Unit := do
  quietly (modify fun s => { s with dots := [] })
  w.starts.forM fun p => addDot o w (Machine.newDot p) none

/-! ## The observer does not interfere -/

theorem output_follows (p : Payload) : Follows (output o p) (Console.output p) :=
  .note_bind (.quietly _)

theorem read_follows (byCode : Bool) : Follows (read o byCode) (Console.read byCode) :=
  .note_bind (.quietly _)

theorem countTick_follows {b : Observed Console γ Unit} {a : ConsoleAct Unit} (h : Follows b a) :
    Follows (countTick b) (Console.countTick a) := by
  refine (Follows.quietly get).bind fun c => ?_
  generalize Console.countDown c.ticksLeft = r
  obtain ⟨left, reached⟩ := r
  refine (Follows.quietly _).bind fun _ => ?_
  cases reached with
  | true => exact h.bind fun _ => .throw _
  | false => exact .pure _

theorem tickConsole_follows (w : World) (dots : List Pos) :
    Follows (tickConsole o w dots) (Console.tick w dots) := by
  refine (Follows.quietly get).bind fun c => ?_
  cases c.service with
  | bare => exact .pure _
  | recorder => exact (Follows.quietly _).bind fun _ => countTick_follows (.pure _)
  | terminal d =>
    refine (Follows.quietly _).bind fun _ => ?_
    have hcount := countTick_follows (output_follows o (.text "QUITTING next step!\n"))
    have hshow := (Follows.quietly (showStep d w dots)).bind fun _ => hcount
    unfold showStep at hshow ⊢
    cases hseen : (decide (d.view ≠ .off) && !d.silent) with
    | true =>
      rw [hseen, if_pos rfl, bind_assoc] at hshow
      exact hshow
    | false =>
      rw [hseen] at hshow
      exact hshow

theorem report_follows (text : String) : Follows (report o text) (Console.report text) := by
  refine (Follows.quietly get).bind fun c => ?_
  cases c.service with
  | bare => exact .quietly _
  | recorder => exact .quietly _
  | terminal d => exact (output_follows o _).bind fun _ => .throw _

theorem onConsole_follows {α : Type} {b : Observed Console γ α} {a : ConsoleAct α}
    (h : Follows b a) : Follows (onConsole b) (Scene.onConsole a) := by
  intro s
  unfold onConsole Scene.onConsole
  rw [← h (s.1.console, s.2)]
  cases b (s.1.console, s.2) with
  | ok x c => rfl
  | error e c => rfl

theorem tick_follows (w : World) : Follows (tick o w) (Scene.tick w) :=
  .note_bind ((Follows.quietly _).bind fun _ => (Follows.quietly get).bind fun _ =>
    onConsole_follows (tickConsole_follows o w _))

theorem perform_follows (c : Cell) (i : Nat) (deed : Deed) :
    Follows (perform o c i deed) (Turn.perform c i deed) := by
  cases deed with
  | become d => exact Follows.quietly (Turn.perform c i (.become d))
  | print p before after =>
    exact (Follows.quietly _).bind fun _ =>
      (onConsole_follows (output_follows o p)).bind fun _ => .quietly _
  | read byCode after =>
    exact (onConsole_follows (read_follows o byCode)).bind fun _ => .quietly _
  | branch new d => exact Follows.quietly (Turn.perform c i (.branch new d))
  | meet m => exact Follows.quietly (Turn.perform c i (.meet m))
  | stop d why => exact Follows.quietly (Turn.perform c i (.stop d why))

theorem act_follows (w : World) (i : Nat) : Follows (act o w i) (Turn.act w i) := by
  refine (Follows.quietly _).bind fun d => ?_
  cases w.cell? d.pos with
  | none => exact .quietly _
  | some c =>
    refine .look_bind fun s => (perform_follows o c i _).bind fun _ => ?_
    exact (Follows.quietly (Turn.settle w i)).bind_note

theorem step_follows (w : World) (i : Nat) (c : Cell) :
    Follows (step o w i c) (Turn.step w i c) := by
  refine (Follows.quietly _).bind fun d => ?_
  cases d.choose c with
  | error why => exact .throw why
  | ok phase =>
    refine (Follows.quietly _).bind fun _ => (Follows.quietly _).bind fun d => .look_bind fun s => ?_
    refine (perform_follows o c i _).bind fun _ => ?_
    exact (Follows.quietly (goesOn w i)).bind_note

theorem runOn_follows (w : World) (i fuel : Nat) (past : List Pos) :
    Follows (runOn o w i fuel past) (Turn.runOn w i fuel past) := by
  induction fuel generalizing past with
  | zero => exact .pure _
  | succ fuel ih =>
    refine (tick_follows o w).bind fun _ => (Follows.quietly _).bind fun d => ?_
    by_cases hpast : past.contains d.pos = true
    · rw [if_pos hpast, if_pos hpast]
      exact .pure _
    · rw [if_neg hpast, if_neg hpast]
      cases w.cell? d.pos with
      | none => exact (Follows.quietly _).noting
      | some c =>
        refine (step_follows o w i c).noting.bind fun goes => ?_
        cases goes with
        | true => exact ih _
        | false => exact .pure _

theorem moveAll_follows (w : World) (n : Nat) :
    Follows (moveAll o w n) (Machine.chooseAll w n >>= fun _ => Machine.actAll w n) :=
  ((Follows.quietly _).bind fun _ => .forM (act_follows o w) _).noting

theorem sweepDots_follows (n : Nat) :
    Follows (sweepDots o n) (modify fun s => { s with dots := Machine.sweep n s.dots }) :=
  .note_bind (.quietly _)

theorem parallelTick_follows (w : World) :
    Follows (parallelTick o w) (Machine.parallelTick w) := by
  refine (Follows.quietly get).bind fun s => ?_
  have hall := (moveAll_follows o w s.dots.length).bind fun _ =>
    (sweepDots_follows o s.dots.length).bind fun _ => tick_follows o w
  rw [bind_assoc] at hall
  exact hall

theorem eraseDot_follows (i : Nat) :
    Follows (eraseDot o i) (modify fun s => { s with dots := s.dots.eraseIdx i }) :=
  .note_bind (.quietly _)

theorem turns_follows (w : World) (n i : Nat) :
    Follows (turns o w n i) (Machine.turns w true n i) := by
  induction n generalizing i with
  | zero => exact .pure _
  | succ n ih =>
    refine (runOn_follows o w i _ _).bind fun _ => (Follows.quietly _).bind fun d => ?_
    by_cases hdead : d.isDead = true
    · rw [if_pos hdead, if_pos hdead]
      exact (eraseDot_follows o i).bind fun _ => ih i
    · rw [if_neg hdead, if_neg hdead]
      exact ih (i + 1)

theorem tickBy_follows (w : World) (parallel : Bool) :
    Follows (tickBy o w parallel) (Machine.tickBy w parallel) := by
  cases parallel with
  | true => exact parallelTick_follows o w
  | false => exact (Follows.quietly get).bind fun s => turns_follows o w _ _

/-- An observed run without the notes is the run. -/
theorem loop_follows (w : World) (parallel : Bool) (fuel : Nat) :
    Follows (loop o w parallel fuel) (Machine.loop w parallel fuel) := by
  induction fuel with
  | zero => exact .pure _
  | succ fuel ih =>
    refine (Follows.quietly get).bind fun s => ?_
    have hrest := (tickBy_follows o w parallel).bind fun _ => ih
    cases s.dots.isEmpty with
    | true => exact (Follows.throw Stop.exit).bind fun _ => hrest
    | false => exact hrest

theorem addDot_follows (w : World) (d : Dot) (dir : Option Pos) :
    Follows (addDot o w d dir) (Machine.addDot w d dir) := by
  refine (Follows.quietly _).bind fun phase => ?_
  simp only
  cases dir.orElse fun _ => Dot.findDirection? w d.pos with
  | some dir => exact .quietly _
  | none => exact (onConsole_follows (report_follows o _)).bind fun _ => .quietly _

theorem setUp_follows (w : World) : Follows (setUp o w) (Machine.setUp w) :=
  (Follows.quietly _).bind fun _ => .forM (fun _ => addDot_follows o w _ _) _

/-- The dots of a world are set up and move, for at most `fuel` ticks. -/
def course (w : World) (parallel : Bool) (fuel : Nat) : Observed Scene γ Unit := do
  setUp o w
  loop o w parallel fuel

end

/-! ## Parts of a run -/

section
variable {γ : Type} {o : Observer γ} {w : World} {parallel : Bool} {s : Scene} {g : γ}

theorem loop_succ (o : Observer γ) (w : World) (parallel : Bool) (fuel : Nat) (s : Scene) (g : γ) :
    loop o w parallel (fuel + 1) (s, g) = (if s.dots.isEmpty then
      throw .exit >>= fun _ : PUnit => tickBy o w parallel >>= fun _ => loop o w parallel fuel
      else tickBy o w parallel >>= fun _ => loop o w parallel fuel : Observed Scene γ Unit)
        (s, g) := rfl

/-- Without dots a run stops. -/
theorem loop_of_empty {fuel : Nat} (h : s.dots = []) :
    loop o w parallel (fuel + 1) (s, g) = .error .exit (s, g) := by
  rw [loop_succ, h]
  rfl

/-- With dots it goes on with a tick. -/
theorem loop_of_dots {fuel : Nat} (h : s.dots ≠ []) :
    loop o w parallel (fuel + 1) (s, g) =
      (tickBy o w parallel >>= fun _ => loop o w parallel fuel) (s, g) := by
  rw [loop_succ, if_neg (by simpa using h)]

/-- A run of `n + k` ticks is a run of `n` ticks, followed by one of `k`. -/
theorem loop_add (o : Observer γ) (w : World) (parallel : Bool) (n k : Nat) :
    loop o w parallel (n + k) = (loop o w parallel n >>= fun _ => loop o w parallel k) := by
  induction n with
  | zero =>
    rw [Nat.zero_add]
    exact (pure_bind () fun _ => loop o w parallel k).symm
  | succ n ih =>
    rw [Nat.succ_add_eq_add_succ, Nat.add_succ]
    funext ⟨s, g⟩
    by_cases hempty : s.dots = []
    · rw [loop_of_empty hempty, bind_of_error (loop_of_empty hempty)]
    · have hfirst : (loop o w parallel (n + 1) >>= fun _ => loop o w parallel k) (s, g) =
          ((tickBy o w parallel >>= fun _ => loop o w parallel n) >>= fun _ =>
            loop o w parallel k) (s, g) := by
        show EStateM.bind _ _ _ = EStateM.bind _ _ _
        unfold EStateM.bind
        rw [loop_of_dots hempty]
      rw [loop_of_dots hempty, hfirst, ih, bind_assoc]

end

/-! ## What is not noted -/

theorem onConsole_eq_quietly {γ α : Type} {b : Observed Console γ α} {a : ConsoleAct α}
    (hstill : Still b) (hb : Follows b a) : onConsole b = quietly (Scene.onConsole a) := by
  refine Still.eq_quietly ?_ (onConsole_follows hb)
  intro s
  have hnotes := hstill (s.1.console, s.2)
  unfold onConsole
  cases h : b (s.1.console, s.2) with
  | ok x c =>
    rw [h] at hnotes
    exact hnotes
  | error e c =>
    rw [h] at hnotes
    exact hnotes

section
variable {γ : Type} {o : Observer γ} (hdeaf : o.IsDeaf)

include hdeaf

theorem output_still (p : Payload) : Still (output o p) :=
  (Still.note fun _ g => hdeaf.called p g).bind fun _ => .quietly _

theorem output_eq_quietly (p : Payload) :
    onConsole (output o p) = quietly (Scene.onConsole (Console.output p)) :=
  onConsole_eq_quietly (output_still hdeaf p) (output_follows o p)

theorem read_eq_quietly (byCode : Bool) :
    onConsole (read o byCode) = quietly (Scene.onConsole (Console.read byCode)) :=
  onConsole_eq_quietly ((Still.note fun _ g => hdeaf.asked byCode g).bind fun _ => .quietly _)
    (read_follows o byCode)

theorem report_eq_quietly (text : String) :
    onConsole (report o text) = quietly (Scene.onConsole (Console.report text)) := by
  refine onConsole_eq_quietly ?_ (report_follows o text)
  refine (Still.quietly _).bind fun c => ?_
  cases c.service with
  | bare => exact .quietly _
  | recorder => exact .quietly _
  | terminal d => exact (output_still hdeaf _).bind fun _ => .throw _

theorem tickConsole_still (w : World) (dots : List Pos) : Still (tickConsole o w dots) := by
  have hcount : ∀ {b : Observed Console γ Unit}, Still b → Still (countTick b) := by
    intro b hb
    refine (Still.quietly _).bind fun c => ?_
    generalize Console.countDown c.ticksLeft = r
    obtain ⟨left, reached⟩ := r
    refine (Still.quietly _).bind fun _ => ?_
    cases reached with
    | true => exact hb.bind fun _ => .throw _
    | false => exact .pure _
  refine (Still.quietly _).bind fun c => ?_
  cases c.service with
  | bare => exact .pure _
  | recorder => exact (Still.quietly _).bind fun _ => hcount (.pure _)
  | terminal d =>
    exact (Still.quietly _).bind fun _ => (Still.quietly _).bind fun _ =>
      hcount (output_still hdeaf _)

/-- Of a tick there is at most the one note. -/
theorem tick_eq_note (w : World) :
    tick o w = (note o.ticked >>= fun _ => quietly (Scene.tick w)) := by
  have hrest : (quietly traceTick >>= fun _ => quietly get >>= fun s =>
      onConsole (tickConsole o w (positions s.dots))) = quietly (Scene.tick w) := by
    refine Still.eq_quietly ?_ ?_
    · refine (Still.quietly _).bind fun _ => (Still.quietly _).bind fun s => ?_
      rw [onConsole_eq_quietly (tickConsole_still hdeaf w _) (tickConsole_follows o w _)]
      exact .quietly _
    · exact (Follows.quietly _).bind fun _ => (Follows.quietly get).bind fun _ =>
        onConsole_follows (tickConsole_follows o w _)
  rw [← hrest]
  rfl

theorem tick_eq_quietly (hticked : ∀ s g, o.ticked s g = g) (w : World) :
    tick o w = quietly (Scene.tick w) := by
  rw [tick_eq_note hdeaf, note_eq_pure hticked]
  rfl

theorem perform_eq_quietly (c : Cell) (i : Nat) (deed : Deed) :
    perform o c i deed = quietly (Turn.perform c i deed) := by
  refine Still.eq_quietly ?_ (perform_follows o c i deed)
  cases deed with
  | print p x y =>
    refine (Still.quietly _).bind fun _ => ?_
    rw [output_eq_quietly hdeaf]
    exact (Still.quietly _).bind fun _ => .quietly _
  | read byCode x =>
    refine Still.bind ?_ fun n => .quietly _
    rw [read_eq_quietly hdeaf]
    exact .quietly _
  | become d => exact Still.quietly (Turn.perform c i (.become d))
  | branch new d => exact Still.quietly (Turn.perform c i (.branch new d))
  | meet m => exact Still.quietly (Turn.perform c i (.meet m))
  | stop d why => exact Still.quietly (Turn.perform c i (.stop d why))

section
variable (hstepped : ∀ i s t g, o.stepped i s t g = g)

include hstepped

theorem act_eq_quietly (w : World) (i : Nat) : act o w i = quietly (Turn.act w i) := by
  refine Still.eq_quietly ?_ (act_follows o w i)
  refine (Still.quietly _).bind fun d => ?_
  cases w.cell? d.pos with
  | none => exact .quietly _
  | some c =>
    refine (Still.quietly _).bind fun s => ?_
    rw [perform_eq_quietly hdeaf]
    exact (Still.quietly _).bind fun _ => (Still.quietly _).bind fun _ => .note (hstepped i s)

theorem step_eq_quietly (w : World) (i : Nat) (c : Cell) :
    step o w i c = quietly (Turn.step w i c) := by
  refine Still.eq_quietly ?_ (step_follows o w i c)
  refine (Still.quietly _).bind fun d => ?_
  cases d.choose c with
  | error why => exact .throw why
  | ok phase =>
    refine (Still.quietly _).bind fun _ => (Still.quietly _).bind fun d => ?_
    refine (Still.quietly _).bind fun s => ?_
    rw [perform_eq_quietly hdeaf]
    exact (Still.quietly _).bind fun _ => (Still.quietly _).bind fun _ =>
      (Still.note (hstepped i s)).bind fun _ => .pure _

end

end

end Observed

end DotPaths
