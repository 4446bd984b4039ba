import DotPaths.Proofs.Execution
import DotPaths.Proofs.Order
import DotPaths.Proofs.Schedules

/-! # A dot and a terminal

    A program with a single dot, which never sets out copies, is a dialogue: the dot
    takes lines of the input and prints texts, one thing in each tick, until it is dead.
    What it takes and what it prints follows from its choices and its deeds alone.

    - `Dialogue`: the dialogue of a dot, from where it stands to its end.
    - `tick_of_talks`, `loop_of_dialogue`: the parallel ticks go as the dialogue does.
    - `endsWith_of_dialogue`: so does the run, by either schedule.
-/

namespace DotPaths

/-! ## Dialogues -/

/-- The deed takes the input to `rest`, prints the texts `out`, and makes the dot `d`. -/
inductive Deed.Talks : Deed → List Char → List String → List Char → Dot → Prop where
  | prints {deed : Deed} {out : List String} {d : Dot} (h : deed.Prints out d) (input : List Char) :
      Talks deed input out input d
  | read {input line rest : List Char} (after : Int → Dot)
      (h : Text.takeLine input = some (line, rest)) :
      Talks (.read false after) input [] rest (after (Console.numberOfLine (Integer.read line)))

/-- In a tick, the dot `d` takes the input to `rest`, prints the texts `out`, and
    becomes `o`. -/
inductive Dot.Talks (w : World) (input : List Char) (out : List String) (rest : List Char)
    (d : Dot) : Dot → Prop where
  | intro {e o : Dot} {c : Cell} (hchosen : d.chosen w = .ok e) (hc : w.cell? e.pos = some c)
      (hdeed : (e.deed w c).Talks input out rest o) : Talks w input out rest d (o.settled w)

theorem Dot.Talks.of_cell {w : World} {d o : Dot} {c : Cell} {phase : Phase}
    {input rest : List Char} {out : List String} (hc : w.cell? d.pos = some c)
    (hblank : c.isBlank = false) (hchoose : d.choose c = .ok phase)
    (hdeed : (Dot.deed w { d with phase := phase } c).Talks input out rest o) :
    d.Talks w input out rest (o.settled w) := by
  refine .intro (e := { d with phase := phase }) ?_ hc hdeed
  simp [Dot.chosen, hc, hchoose, hblank, Except.map]

/-- Up to its death, the dot `d` takes the input to `rest` and prints the texts `out`. -/
inductive Dialogue (w : World) : Dot → List Char → List String → List Char → Prop where
  | ends {d o : Dot} {input rest : List Char} {out : List String}
      (h : d.Talks w input out rest o) (hdead : o.isDead = true) : Dialogue w d input out rest
  | goes {d o : Dot} {input middle rest : List Char} {out out' : List String}
      (h : d.Talks w input out middle o) (hlive : o.isDead = false)
      (hrest : Dialogue w o middle out' rest) : Dialogue w d input (out ++ out') rest

/-! ## The terminal -/

namespace Console

/-- Without any limit, a terminal that just prints has come from `c` to `c'` by printing
    the texts `out`, and `rest` is left of the input. -/
structure Talked (c : Console) (out : List String) (rest : List Char) (c' : Console) : Prop where
  unlimited : ∃ seen, c'.Unlimited seen
  texts : c'.texts = (out.map CodeText.ofString).reverse ++ c.texts
  input : c'.input = rest

variable {c c' c'' : Console} {seen : List Scene} {out out' : List String}
  {line rest rest' : List Char}

theorem Talked.trans (h : c.Talked out rest c') (h' : c'.Talked out' rest' c'') :
    c.Talked (out ++ out') rest' c'' where
  unlimited := h'.unlimited
  texts := by rw [h'.texts, h.texts, List.map_append, List.reverse_append, List.append_assoc]
  input := h'.input

theorem Unlimited.talked_nothing (h : c.Unlimited seen) : c.Talked [] c.input c :=
  ⟨⟨seen, h⟩, rfl, rfl⟩

theorem Unlimited.output_text (h : c.Unlimited seen) (text : String) :
    ∃ c', Console.output (.text text) c = .ok () c' ∧ c.Talked [text] c.input c' := by
  have houtput := h.prints.output_of_room (p := .text text) rfl h.outputs_room
  have hends := (h.output (.text text)).1
  rw [write_of_encodable (CodeText.isEncodable_ofString text)] at houtput
  rw [houtput] at hends
  exact ⟨_, houtput, ⟨seen, hends⟩, rfl, rfl⟩

theorem Unlimited.read_line (h : c.Unlimited seen)
    (hline : Text.takeLine c.input = some (line, rest)) :
    ∃ c', Console.read false c = .ok (numberOfLine (Integer.read line)) c' ∧
      c.Talked [] rest c' := by
  obtain ⟨d, hd, hview⟩ := h.prints.unwindowed
  have htake : ∀ k : Console, k.input = c.input → takeLine k = .ok line { k with input := rest } := by
    intro k hk
    have hget : (get : ConsoleAct Console) k = .ok k k := rfl
    unfold takeLine
    rw [bind_of_ok hget, hk, hline]
    rfl
  have hread : Console.read false c = .ok (numberOfLine (Integer.read line))
      { c with input := rest, events := questions d false ++ c.events } := by
    rw [read_unwindowed hd hview]
    show (takeLine >>= fun line => pure (numberOfLine (Integer.read line))) _ = _
    rw [bind_of_ok (htake { c with events := questions d false ++ c.events } rfl)]
    rfl
  exact ⟨_, hread, ⟨seen, (h.ask hd false).take rest⟩, rfl, rfl⟩

theorem Unlimited.tick_counts (h : c.Unlimited seen) (w : World) (dots : List Pos) :
    ∃ c', Console.tick w dots c = .ok () c' ∧ c.Talked [] c.input c' := by
  obtain ⟨htick, hends⟩ := h.tick w dots { dots := [], console := c }
  exact ⟨_, htick, ⟨_, hends⟩, rfl, rfl⟩

theorem Unlimited.isCalm (h : c.Unlimited seen) : c.IsCalm := by
  refine ⟨h.ticksFree, ?_⟩
  obtain ⟨d, hservice, hview, -⟩ := h.prints
  intro d' hd'
  cases hservice.symm.trans hd'
  exact hview

end Console

namespace Machine

open Scene

/-! ## Ticks -/

section
variable {w : World} {s : Scene} {seen : List Scene} {d o : Dot} {c : Cell} {deed : Deed}
  {out : List String} {rest : List Char}

theorem setDot_single (h : s.dots = [d]) (e : Dot) :
    setDot 0 e s = .ok () { s with dots := [e] } := by
  rw [setDot_apply, h]
  rfl

/-- What a deed takes and prints is taken from the terminal and printed on it. -/
theorem perform_of_talks (hdots : s.dots = [d]) (hconsole : s.console.Unlimited seen)
    (h : deed.Talks s.console.input out rest o) :
    ∃ t, Turn.perform c 0 deed s = .ok () t ∧ t.dots = [o] ∧
      s.console.Talked out rest t.console := by
  cases h with
  | prints h =>
    cases h with
    | become => exact ⟨_, setDot_single hdots o, rfl, hconsole.talked_nothing⟩
    | print text before =>
      obtain ⟨k, hk, htalked⟩ := hconsole.output_text text
      have hout : onConsole (Console.output (.text text)) { s with dots := [before] } =
          .ok () { s with dots := [before], console := k } := by
        unfold onConsole
        rw [hk]
      refine ⟨{ s with dots := [o], console := k }, ?_, rfl, htalked⟩
      show (setDot 0 before >>= fun _ => onConsole (Console.output (.text text)) >>= fun _ =>
        setDot 0 o) s = _
      rw [bind_of_ok (setDot_single hdots before), bind_of_ok hout]
      exact setDot_single rfl o
  | @read _ line _ after hline =>
    -- The line is taken from the front of the input.
    obtain ⟨k, hk, htalked⟩ := hconsole.read_line hline
    have hread : onConsole (Console.read false) s =
        .ok (Console.numberOfLine (Integer.read line)) { s with console := k } := by
      unfold onConsole
      rw [hk]
    refine ⟨{ s with dots := [after (Console.numberOfLine (Integer.read line))], console := k }, ?_,
      rfl, htalked⟩
    show (onConsole (Console.read false) >>= fun n => setDot 0 (after n)) s = _
    rw [bind_of_ok hread]
    exact setDot_single (s := { s with console := k }) hdots _

/-- A tick of a dot that is alone with the terminal. -/
theorem tick_of_talks (hdots : s.dots = [d]) (hconsole : s.console.Unlimited seen)
    (h : d.Talks w s.console.input out rest o) :
    ∃ t, parallelTick w s = .ok () t ∧ t.dots = (if o.isDead then [] else [o]) ∧
      s.console.Talked out rest t.console := by
  cases h with
  | @intro e o c hchosen hc hdeed =>
    -- It chooses and acts, it is taken away if it is dead, and the tick is counted.
    have hchoose : chooseAll w s.dots.length s = .ok () { s with dots := [e] } := by
      apply chooseAll_ok_iff.mpr
      rw [hdots]
      exact ⟨.cons hchosen .nil, rfl⟩
    obtain ⟨u, hu, hudots, hutalked⟩ :=
      perform_of_talks (s := { s with dots := [e] }) (c := c) rfl hconsole hdeed
    have hu₀ : u.dots[0]? = some o := by
      rw [hudots]
      rfl
    have hact : actAll w s.dots.length { s with dots := [e] } =
        .ok () { u with dots := [o.settled w] } := by
      rw [hdots]
      show actAll w 1 _ = _
      rw [actAll_one, Turn.act_of_perform (d := e) rfl hc hu hu₀, hudots]
      rfl
    have hsweep : sweep s.dots.length [o.settled w] =
        if (o.settled w).isDead then [] else [o.settled w] := by
      rw [hdots]
      cases hdead : (o.settled w).isDead <;> simp [sweep, hdead]
    obtain ⟨seen', hunlimited⟩ := hutalked.unlimited
    obtain ⟨v, hvdots, hvconsole, htick⟩ :=
      tick_eq w { u with dots := sweep s.dots.length [o.settled w] }
    obtain ⟨k, hk, hktalked⟩ := hunlimited.tick_counts w
      (positions (sweep s.dots.length [o.settled w]))
    refine ⟨{ v with console := k }, ?_, hvdots.trans hsweep, ?_⟩
    · rw [parallelTick_eq hchoose hact]
      show Scene.tick w { u with dots := sweep s.dots.length [o.settled w] } = _
      rw [htick, onConsole, hvconsole]
      simp only [hk]
    · have htrans := hutalked.trans hktalked
      rw [List.append_nil, hutalked.input] at htrans
      exact htrans

/-- The ticks go through the dialogue, and then no dot is left. -/
theorem loop_of_dialogue (h : Dialogue w d s.console.input out rest) (hdots : s.dots = [d])
    (hconsole : s.console.Unlimited seen) :
    ∃ n t, loop w true n s = .error .exit t ∧ s.console.Talked out rest t.console := by
  generalize hinput : s.console.input = input at h
  have hsome : ∀ {s : Scene} {d : Dot}, s.dots = [d] → s.dots ≠ [] := by
    intro s d hd
    simp [hd]
  -- By induction on the dialogue: a tick, and the ticks of what follows.
  induction h generalizing s seen with
  | ends htalks hdead =>
    subst hinput
    obtain ⟨t, htick, htdots, htalked⟩ := tick_of_talks hdots hconsole htalks
    rw [hdead] at htdots
    refine ⟨2, t, ?_, htalked⟩
    rw [loop_of_dots (hsome hdots), bind_of_ok (show tickBy w true s = .ok () t from htick)]
    exact loop_of_no_dots htdots
  | goes htalks hlive _ ih =>
    subst hinput
    obtain ⟨t, htick, htdots, htalked⟩ := tick_of_talks hdots hconsole htalks
    rw [hlive] at htdots
    obtain ⟨seen', hunlimited⟩ := htalked.unlimited
    obtain ⟨n, t', hloop, htalked'⟩ := ih htdots hunlimited htalked.input
    refine ⟨n + 1, t', ?_, htalked.trans htalked'⟩
    rw [loop_of_dots (hsome hdots), bind_of_ok (show tickBy w true s = .ok () t from htick)]
    exact hloop

end

/-! ## Runs -/

/-- No dot sets out copies in a world without crossings. -/
theorem NeverBranches.of_no_crossing {w : World} (h : ∀ p, w.hasGlyph p '*' = false) (s : Scene) :
    NeverBranches w s := by
  intro n t c _ _ d _
  simp [Dot.copies, h]

/-- The run goes as the dialogue does, whichever way the dots move. -/
theorem endsWith_of_dialogue {m : Machine} {d : Dot} {seen : List Scene} {texts : List String}
    {rest : List Char} (h : Dialogue m.world d m.scene.console.input texts rest)
    (hgo : m.shutdown = false) (hdots : m.scene.dots = [d])
    (hstands : AllStand m.world m.scene.dots) (hcrossing : ∀ p, m.world.hasGlyph p '*' = false)
    (hconsole : m.scene.console.Unlimited seen) :
    ∃ out, m.EndsWith .exit out ∧
      out.console.texts = (texts.map CodeText.ofString).reverse ++ m.scene.console.texts ∧
      out.console.Wrote (CodeText.writable out.console.texts) ∧ out.console.input = rest := by
  obtain ⟨n, t, hloop, htalked⟩ := loop_of_dialogue h hdots hconsole
  obtain ⟨seen', hunlimited⟩ := htalked.unlimited
  have hwrote : t.snapshot.console.Wrote (CodeText.writable t.console.texts) :=
    ⟨hunlimited.written.apart, hunlimited.written.asked⟩
  refine ⟨t.snapshot, ?_, htalked.texts, hwrote, htalked.input⟩
  -- Parallel ticks follow the dialogue, and a single dot fares the same by the other
  -- schedule.
  have hparallel : { m with parallel := true }.EndsWith .exit t.snapshot := by
    refine (endsWith_iff (m := { m with parallel := true }) hgo).mpr ⟨n, ?_⟩
    have hfinish : onConsole Console.finish t = .ok () t := by
      unfold onConsole
      rw [hunlimited.prints.unwindowed.finish_eq]
    show verdict (loop m.world true n m.scene) = _
    rw [hloop]
    simp only [verdict, hfinish]
  have hone : m.scene.dots.length = 1 := by
    rw [hdots]
    rfl
  have hpaired : Paired m.world m.scene m.scene :=
    ⟨⟨rfl, hconsole.isCalm, m.scene.console.ticks, rfl⟩,
      .inr ⟨hone, hstands, .of_no_crossing hcrossing m.scene⟩⟩
  have hsame : SameRuns { m with parallel := true } { m with parallel := false } :=
    Paired.sameRuns (m := { m with parallel := true }) hpaired rfl hgo
  obtain ⟨world, parallel, scene, shutdown⟩ := m
  cases parallel with
  | true => exact hparallel
  | false => exact (hsame.ends .exit t.snapshot).mp hparallel

end Machine

end DotPaths
