import DotPaths.Proofs.Execution

/-! # Limits of outputs

    An execution with a limit of outputs goes the way of the execution without
    one until an output reaches the limit.  This output ends it, and is not
    printed any more: of `n` outputs that are allowed, `n - 1` are to be seen.
-/

namespace DotPaths

open Scene

namespace Console

/-! ## Before the limit -/

/-- The console `c` has a limit of `n` outputs, which is still ahead, and is
    otherwise the console `c'` without any limit.  At no tick so far have there
    been as many outputs. -/
structure Capped (n : Nat) (seen : List Scene) (c c' : Console) : Prop where
  free : c'.Unlimited seen
  ahead : c'.texts.length < n
  early : ∀ u ∈ seen, u.console.texts.length < n
  same : c = { c' with outputsLeft := some (n - c'.texts.length) }

namespace Capped

variable {n : Nat} {seen : List Scene} {c c' : Console}

theorem sameButLimits (h : c.Capped n seen c') : c.SameButLimits c' := ⟨_, _, h.same⟩

theorem prints (h : c.Capped n seen c') : c.JustPrints :=
  (h.free.toOrderly.of_same h.sameButLimits).prints

theorem read_alike (byCode : Bool) : Alike (Capped n seen) (read byCode) (read byCode) := by
  refine JustPrints.read_alike prints ?_ ?_ ?_ ?_
  · intro c c' h
    rw [h.same]
  · intro c c' h
    rw [h.same]
  · intro c c' rest h
    refine ⟨h.free.take rest, h.ahead, h.early, ?_⟩
    rw [h.same]
  · intro c c' d h hd
    rw [h.same] at hd
    refine ⟨h.free.ask hd byCode, h.ahead, h.early, ?_⟩
    rw [h.same]

theorem tick (h : c.Capped n seen c') (w : World) (dots : List Pos) (u : Scene)
    (hu : u.console = c') :
    ∃ k k', tick w dots c = .ok () k ∧ tick w dots c' = .ok () k' ∧
      k.Capped n (seen ++ [u]) k' := by
  have hleft : countDown c.ticksLeft = (none, false) := by
    rw [h.same]
    exact h.free.ticks_room
  obtain ⟨htick', hfree⟩ := h.free.tick w dots u
  refine ⟨_, _, h.prints.tick_of_room w dots hleft, htick', hfree, h.ahead, ?_, ?_⟩
  · intro v hv
    rcases List.mem_append.mp hv with hv | hv
    · exact h.early v hv
    · rw [List.mem_singleton.mp hv, hu]
      exact h.ahead
  · rw [h.same]

end Capped

/-! ## At the limit -/

/-- On the console `k` an output has reached the limit of `n`, while things have
    come to `c` without the limit.  There have been those ticks on `k` before
    which fewer outputs were made. -/
structure Spent (n : Nat) (k : Console) (seen : List Scene) (c : Console) : Prop where
  free : c.Unlimited seen
  left : k.outputsLeft = none
  short : k.texts.length + 1 = n
  passed : n ≤ c.texts.length
  further : k.texts <:+ c.texts
  behind : k.ticks ≤ seen.length
  ticks : ∀ {i u}, seen[i]? = some u → (i < k.ticks ↔ u.console.texts.length < n)

namespace Spent

variable {n : Nat} {seen : List Scene} {k c : Console}

/-- Without the limit, more may be printed. -/
theorem next {c' : Console} (h : Spent n k seen c)
    (hc' : c'.Unlimited seen ∧ c.texts <:+ c'.texts) : Spent n k seen c' where
  free := hc'.1
  left := h.left
  short := h.short
  passed := Nat.le_trans h.passed hc'.2.length_le
  further := h.further.trans hc'.2
  behind := h.behind
  ticks := h.ticks

/-- And there may be more ticks. -/
theorem tick {u : Scene} {c' : Console} (h : Spent n k seen c) (hu : u.console = c)
    (hfree : c'.Unlimited (seen ++ [u])) (houtputs : c'.texts = c.texts) :
    Spent n k (seen ++ [u]) c' where
  free := hfree
  left := h.left
  short := h.short
  passed := houtputs ▸ h.passed
  further := houtputs ▸ h.further
  behind := by
    rw [List.length_append]
    exact Nat.le_add_right_of_le h.behind
  ticks := by
    intro i v hv
    by_cases hi : i < seen.length
    · rw [List.getElem?_append_left hi] at hv
      exact h.ticks hv
    · -- The tick is new: it comes after all outputs that were allowed.
      have hlast : v = u := by
        rw [List.getElem?_append_right (Nat.le_of_not_lt hi)] at hv
        exact (List.mem_singleton.mp (List.mem_of_getElem? hv))
      have hbehind := h.behind
      have hpassed := h.passed
      rw [hlast, hu]
      omega

end Spent

/-- The output that reaches the limit. -/
theorem Capped.output_at_limit {n : Nat} {seen : List Scene} {c c' : Console} {p : Payload}
    {text : CodeText} (h : c.Capped n seen c') (hp : p.render = .ok text)
    (hlast : c'.texts.length + 1 = n) :
    output p c = .error .exit { c with outputsLeft := none } ∧
      Spent n { c with outputsLeft := none } seen (endState (output p c')) := by
  have hleft : countDown c.outputsLeft = (none, true) := by
    rw [h.same, ← hlast, Nat.add_sub_cancel_left]
    rfl
  obtain ⟨hfree, hfurther⟩ := h.free.output p
  have houtputs : c.texts = c'.texts := by rw [h.same]
  have hticks : c.ticks = seen.length := by
    rw [h.same]
    exact h.free.counted
  refine ⟨h.prints.output_at_limit hp hleft, hfree, rfl, ?_, ?_, ?_, ?_, ?_⟩
  · rw [houtputs]
    exact hlast
  · rw [(h.free.output_of_ok hp).2]
    exact Nat.le_of_eq hlast.symm
  · rw [houtputs]
    exact hfurther
  · exact Nat.le_of_eq hticks
  · intro i u hu
    have hi := (List.getElem?_eq_some_iff.mp hu).1
    have hearly := h.early u (List.mem_of_getElem? hu)
    rw [hticks]
    exact ⟨fun _ => hearly, fun _ => hi⟩

/-- An output before, whether it can be written or not. -/
theorem Capped.output_of_room {n : Nat} {seen : List Scene} {c c' : Console} {p : Payload}
    {text : CodeText} (h : c.Capped n seen c') (hp : p.render = .ok text)
    (hroom : c'.texts.length + 1 < n) : EndAlike (Capped n seen) (output p c) (output p c') := by
  have hleft : countDown c.outputsLeft = (some (n - (text :: c'.texts).length), false) := by
    rw [h.same]
    show countDown (some (n - c'.texts.length)) = _
    rw [countDown, if_neg (by omega), List.length_cons, Nat.sub_sub]
  have hfree := (h.free.output p).1
  rw [h.free.prints.output_of_room hp h.free.outputs_room] at hfree ⊢
  rw [h.prints.output_of_room hp hleft]
  cases htext : text.isEncodable with
  | true =>
    rw [write_of_encodable htext] at hfree ⊢
    rw [write_of_encodable htext]
    refine ⟨rfl, hfree, hroom, h.early, ?_⟩
    rw [h.same]
  | false =>
    rw [write_of_not_encodable htext] at hfree ⊢
    rw [write_of_not_encodable htext]
    refine ⟨rfl, hfree, hroom, h.early, ?_⟩
    rw [h.same]

theorem Capped.output_inStep {n : Nat} {seen : List Scene} (p : Payload) :
    InStep (Capped n seen) (fun e k c => e = .exit ∧ Spent n k seen c) (output p) := by
  constructor
  · intro c c' h
    cases hp : p.render with
    | error f =>
      rw [h.prints.output_of_error hp, h.free.prints.output_of_error hp]
      exact .error h
    | ok text =>
      by_cases hroom : c'.texts.length + 1 < n
      · exact .of_alike (h.output_of_room hp hroom)
      · have hlast : c'.texts.length + 1 = n := by
          have hahead := h.ahead
          omega
        obtain ⟨hexit, hspent⟩ := h.output_at_limit hp hlast
        rw [hexit]
        exact .cut ⟨rfl, hspent⟩
  · intro e k c ⟨hexit, h⟩
    exact ⟨hexit, h.next (h.free.output p)⟩

theorem Capped.report_inStep {n : Nat} {seen : List Scene} (text : String) :
    InStep (Capped n seen) (fun e k c => e = .exit ∧ Spent n k seen c) (report text) := by
  have hsaid : InStep (Capped n seen) (fun e k c => e = .exit ∧ Spent n k seen c)
      (output (.text ("error: " ++ text : String)) >>= fun _ => throw .exit : ConsoleAct Unit) :=
    (output_inStep _).bind fun _ => .throw _
  constructor
  · intro c c' h
    rw [h.prints.report_eq, h.free.prints.report_eq]
    exact hsaid.abreast h
  · intro e k c h
    rw [h.2.free.prints.report_eq]
    exact hsaid.lasting h

end Console

namespace Observed

open Console

theorem capped_lockstep (n : Nat) :
    Lockstep clock (Alongside fun _ => Capped n)
      (Outlasts fun e x seen c => e = .exit ∧ Spent n x.1.console seen c) := by
  refine clock_lockstep deaf_inStep (fun p => ?_) (fun byCode => ?_) (fun text => ?_) fun w => ?_
  · exact quietly_inStep (F := fun e x seen c => e = .exit ∧ Spent n x.1 seen c)
      fun _ _ => Capped.output_inStep p
  · exact alike_inStep (fun _ _ => Capped.read_alike byCode) fun h =>
      ⟨h.1, h.2.next (h.2.free.read byCode)⟩
  · exact quietly_inStep (F := fun e x seen c => e = .exit ∧ Spent n x.1 seen c)
      fun _ _ => Capped.report_inStep text
  · constructor
    · intro x y ⟨hdots, hcapped⟩
      obtain ⟨k, k', hk, hk', hnext⟩ := hcapped.tick w (positions x.1.dots) y.1 rfl
      exact tick_abreast hdots hk hk' hnext
    · intro e x y ⟨hexit, h⟩
      obtain ⟨htick, hfree⟩ := Unlimited.tick h.free w (positions y.1.dots) y.1
      obtain ⟨hconsole, hseen⟩ := endState_tick w y
      rw [htick] at hconsole
      refine ⟨hexit, ?_⟩
      rw [hconsole, hseen]
      exact Spent.tick h rfl hfree rfl

end Observed

/-! ## Whole executions -/

/-- The text that an event writes.  A question does not count. -/
def Event.written? : Event → Option String
  | .write text => some text
  | _ => none

namespace Console

/-- All the text that the console has written. -/
def printed (c : Console) : String := String.join (c.events.reverse.filterMap Event.written?)

theorem Wrote.printed_eq {texts : List String} {c : Console} (h : c.Wrote texts) :
    c.printed = String.join texts.reverse := by
  -- Questions may be left out before the texts are collected.
  have hfilter : (c.events.filter (· ≠ .prompt question)).filterMap Event.written? =
      c.events.filterMap Event.written? := by
    rw [List.filterMap_filter]
    congr 1
    funext e
    by_cases he : e = .prompt question
    · subst he
      rfl
    · simp [he]
  unfold printed
  rw [List.filterMap_reverse, ← hfilter, h.apart, List.filterMap_map]
  exact congrArg (fun l => String.join (List.reverse l)) List.filterMap_some

theorem Orderly.printed_eq {seen : List Scene} {c : Console} (h : c.Orderly seen) :
    c.printed = String.join (CodeText.writable c.texts.reverse) := by
  rw [h.written.printed_eq]
  unfold CodeText.writable
  rw [List.filter_reverse, List.map_reverse]

end Console

namespace Machine

/-- What is said if the world of a program is not built. -/
def notice (shelf : Shelf) (program : String) : String :=
  match World.build shelf program with
  | .error f => f.notice
  | .ok _ => ""

/-- What a limit of `n` outputs makes of an execution.  For each number of rounds,
    `free` and `limited` are the executions without and with the limit, and
    `scenes` are the scenes at the ticks of the former; `said` is what is said
    before there are outputs. -/
structure OutputLimited (n : Nat) (said : String) (free limited : Nat → Machine × Option Stop)
    (scenes : Nat → List Scene) : Prop where
  /-- No tick is missing among the scenes. -/
  clocked : ∀ fuel, (scenes fuel).length = (free fuel).1.scene.console.ticks
  /-- The limit is not felt before it is reached. -/
  same : ∀ fuel, (free fuel).1.scene.console.texts.length < n →
    SameRun (limited fuel) (free fuel)
  /-- The output that reaches it ends the execution, and is the first one missing. -/
  cut : ∀ fuel, n ≤ (free fuel).1.scene.console.texts.length →
    (limited fuel).2 = some .exit ∧ (limited fuel).1.scene.console.outputsLeft = none ∧
      (limited fuel).1.scene.console.texts.reverse =
        (free fuel).1.scene.console.texts.reverse.take (n - 1)
  /-- The limited execution has those ticks before which fewer outputs were made. -/
  ticks : ∀ fuel i u, (scenes fuel)[i]? = some u →
    (i < (limited fuel).1.scene.console.ticks ↔ u.console.texts.length < n)
  /-- What is written are the outputs, but for one that cannot be written. -/
  printed : ∀ fuel, (limited fuel).1.scene.console.printed =
    said ++ String.join (CodeText.writable (limited fuel).1.scene.console.texts.reverse)
  /-- As many outputs as are allowed are to be seen only if there are no more to
      be seen, or there is nothing to be seen of the last one. -/
  short : ∀ fuel, (limited fuel).1.scene.console.printed =
      said ++ String.join (CodeText.writable ((free fuel).1.scene.console.texts.reverse.take n)) ↔
    (free fuel).1.scene.console.texts.length < n ∨
      ∃ text, (free fuel).1.scene.console.texts.reverse[n - 1]? = some text ∧
        (text = [] ∨ text.isEncodable = false)

variable {n : Nat} {shelf : Shelf} {program : String} {parallel : Bool} {traced fuel : Nat}

theorem printed_execute {console : Console} (h : console.Orderly [])
    (hempty : console.events = []) (htexts : console.texts = []) :
    (execute shelf program parallel console traced fuel).1.scene.console.printed =
      notice shelf program ++ String.join (CodeText.writable
        (execute shelf program parallel console traced fuel).1.scene.console.texts.reverse) := by
  unfold notice
  cases hbuild : World.build shelf program with
  | error f =>
    rw [(execute_of_error hbuild).2, hempty, htexts]
    by_cases hnotice : f.notice.isEmpty
    · simp [Console.printed, CodeText.writable, String.isEmpty_iff.mp hnotice]
    · simp [Console.printed, CodeText.writable, Event.written?, hnotice]
  | ok w =>
    have horderly := course_orderly h w parallel traced fuel
    rw [← (execute_of_ok hbuild h.prints.unwindowed parallel traced fuel).2] at horderly
    rw [horderly.printed_eq, String.empty_append]

/-- The executions on a console with a limit and on the same console without:
    they have come to the same, or an output has ended the limited one. -/
theorem execute_capped {c c' : Console} (h : c.Capped n [] c') (shelf : Shelf) (program : String)
    (parallel : Bool) (traced fuel : Nat) :
    (SameRun (execute shelf program parallel c traced fuel)
          (execute shelf program parallel c' traced fuel) ∧
        (execute shelf program parallel c' traced fuel).1.scene.console.texts.length < n ∧
        ∀ u ∈ tickScenes shelf program parallel c' traced fuel, u.console.texts.length < n) ∨
      ((execute shelf program parallel c traced fuel).2 = some .exit ∧
        Console.Spent n (execute shelf program parallel c traced fuel).1.scene.console
          (tickScenes shelf program parallel c' traced fuel)
          (execute shelf program parallel c' traced fuel).1.scene.console) := by
  cases hbuild : World.build shelf program with
  | error f =>
    refine .inl ⟨.of_error hbuild h.sameButLimits, ?_, ?_⟩
    · rw [(execute_of_error hbuild).2]
      exact h.ahead
    · unfold tickScenes
      rw [observe_of_error hbuild]
      exact h.early
  | ok w =>
    obtain ⟨hstop, hdots, hcapped⟩ | ⟨_, hstop, rfl, hspent⟩ :=
      execute_lockstep (Observed.capped_lockstep n) hbuild h.prints.unwindowed
        h.free.prints.unwindowed [] [] ⟨rfl, h⟩
    · exact .inl ⟨.of_same hstop hdots hcapped.sameButLimits, hcapped.ahead, hcapped.early⟩
    · exact .inr ⟨hstop, hspent⟩

theorem start_capped {d : Display} (hview : d.view = .off) (hloud : d.silent = false) (hn : 1 ≤ n)
    (input : List Char) (keys : List Int) (typed : List String) :
    (Console.start (.terminal d) 0 n input keys typed).Capped n []
      (.start (.terminal d) 0 0 input keys typed) := by
  have hnone : ∀ u ∈ ([] : List Scene), u.console.texts.length < n := by
    intro u hu
    cases hu
  refine ⟨⟨Console.start_orderly hview hloud 0 0 input keys typed, rfl, rfl⟩, hn, hnone, ?_⟩
  unfold Console.start
  rw [Console.limit_natCast hn]
  rfl

/-- The outputs before the one that reaches the limit. -/
theorem outputs_of_spent {k c : Console} {seen : List Scene} (h : Console.Spent n k seen c) :
    k.texts.reverse = c.texts.reverse.take (n - 1) := by
  have hbegins : k.texts.reverse <+: c.texts.reverse := List.reverse_prefix.mpr h.further
  have hlength : k.texts.reverse.length = n - 1 := by
    rw [List.length_reverse, ← h.short, Nat.add_sub_cancel]
  rw [← hlength]
  exact List.prefix_iff_eq_take.mp hbegins

/-- There is nothing to be seen of a text that is empty or cannot be written. -/
theorem join_writable_singleton_eq_iff (text : CodeText) :
    String.join (CodeText.writable [text]) = "" ↔ text = [] ∨ text.isEncodable = false := by
  cases htext : text.isEncodable with
  | true =>
    rw [CodeText.writable_cons_of_encodable htext]
    simp [CodeText.writable, CodeText.shown]
  | false =>
    rw [CodeText.writable_cons_of_not_encodable htext]
    simp [CodeText.writable]

/-- One output more makes a difference unless there is nothing to be seen of it. -/
theorem join_take_eq_iff {l : List CodeText} (hn : 1 ≤ n) (hl : n ≤ l.length) (said : String) :
    said ++ String.join (CodeText.writable (l.take (n - 1))) =
        said ++ String.join (CodeText.writable (l.take n)) ↔
      ∃ text, l[n - 1]? = some text ∧ (text = [] ∨ text.isEncodable = false) := by
  obtain ⟨k, rfl⟩ := Nat.exists_eq_add_of_le' hn
  have hlast := join_writable_singleton_eq_iff l[k]
  rw [Nat.add_sub_cancel, List.take_add_one, List.getElem?_eq_getElem hl, Option.toList_some,
    CodeText.writable_append, String.join_append, String.append_right_inj, eq_comm,
    String.append_eq_left_iff, hlast]
  simp

/-- What follows from the two ways in which things can have come. -/
theorem OutputLimited.of_capped {said : String} {free limited : Nat → Machine × Option Stop}
    {scenes : Nat → List Scene} (hn : 1 ≤ n)
    (hcapped : ∀ fuel,
      (SameRun (limited fuel) (free fuel) ∧ (free fuel).1.scene.console.texts.length < n ∧
        ∀ u ∈ scenes fuel, u.console.texts.length < n) ∨
      ((limited fuel).2 = some .exit ∧ Console.Spent n (limited fuel).1.scene.console (scenes fuel)
        (free fuel).1.scene.console))
    (hclocked : ∀ fuel, (scenes fuel).length = (free fuel).1.scene.console.ticks)
    (hprinted : ∀ fuel, (limited fuel).1.scene.console.printed =
      said ++ String.join (CodeText.writable (limited fuel).1.scene.console.texts.reverse)) :
    OutputLimited n said free limited scenes where
  clocked := hclocked
  printed := hprinted
  same fuel hfew := by
    obtain ⟨hsame, -⟩ | ⟨-, hspent⟩ := hcapped fuel
    · exact hsame
    · exact absurd hspent.passed (Nat.not_le_of_lt hfew)
  cut fuel hmany := by
    obtain ⟨-, hfew, -⟩ | ⟨hexit, hspent⟩ := hcapped fuel
    · exact absurd hmany (Nat.not_le_of_lt hfew)
    · exact ⟨hexit, hspent.left, outputs_of_spent hspent⟩
  ticks fuel i u hu := by
    obtain ⟨hsame, -, hearly⟩ | ⟨-, hspent⟩ := hcapped fuel
    · have hi := (List.getElem?_eq_some_iff.mp hu).1
      rw [hsame.ticks, ← hclocked]
      exact ⟨fun _ => hearly u (List.mem_of_getElem? hu), fun _ => hi⟩
    · exact hspent.ticks hu
  short fuel := by
    obtain ⟨hsame, hfew, -⟩ | ⟨-, hspent⟩ := hcapped fuel
    · have hall : (free fuel).1.scene.console.texts.reverse.take n =
          (free fuel).1.scene.console.texts.reverse :=
        List.take_of_length_le (by rw [List.length_reverse]; exact Nat.le_of_lt hfew)
      rw [hprinted, hsame.texts, hall]
      exact ⟨fun _ => .inl hfew, fun _ => rfl⟩
    · -- One output is missing, so the texts agree only if it is empty.
      have hmany := Nat.not_lt_of_le hspent.passed
      rw [hprinted, outputs_of_spent hspent,
        join_take_eq_iff hn (by rw [List.length_reverse]; exact hspent.passed)]
      exact ⟨.inr, fun h => h.resolve_left hmany⟩

/-- Of `n` outputs that are allowed, the last one is not printed: a limit of
    outputs leaves one output less to be seen than it says. -/
theorem output_limit_leaves_one_out {d : Display} (hview : d.view = .off) (hloud : d.silent = false)
    (hn : 1 ≤ n) (shelf : Shelf) (program : String) (parallel : Bool) (input : List Char)
    (keys : List Int) (typed : List String) (traced : Nat) :
    OutputLimited n (notice shelf program)
      (execute shelf program parallel (.start (.terminal d) 0 0 input keys typed) traced)
      (execute shelf program parallel (.start (.terminal d) 0 n input keys typed) traced)
      (tickScenes shelf program parallel (.start (.terminal d) 0 0 input keys typed) traced) := by
  have hcapped := start_capped hview hloud hn input keys typed
  have horderly := Console.start_orderly hview hloud 0 n input keys typed
  have hempty : (Console.start (.terminal d) 0 n input keys typed).events = [] := by
    simp [Console.start, hview]
  apply OutputLimited.of_capped hn
  · exact execute_capped hcapped shelf program parallel traced
  · exact fun fuel => length_tickScenes hcapped.free.toOrderly
  · exact fun fuel => printed_execute horderly hempty rfl

/-- A dot that prints its number three times. -/
def threefold : String := ".-$#-$#-$#"

/-- A terminal with a limit of outputs and nothing to read. -/
def countingConsole (outputs : Int) : Console := .start (.terminal plainDisplay) 0 outputs [] [] []

/-- With a limit of three, two of the three outputs are printed. -/
theorem two_of_three_printed :
    OutputLimited 3 (notice ⟨⟨[]⟩, []⟩ threefold)
        (execute ⟨⟨[]⟩, []⟩ threefold true (countingConsole 0) 0)
        (execute ⟨⟨[]⟩, []⟩ threefold true (countingConsole 3) 0)
        (tickScenes ⟨⟨[]⟩, []⟩ threefold true (countingConsole 0) 0) ∧
      (execute ⟨⟨[]⟩, []⟩ threefold true (countingConsole 0) 0 20).1.scene.console.outputs =
        ["0\n", "0\n", "0\n"] ∧
      (execute ⟨⟨[]⟩, []⟩ threefold true (countingConsole 3) 0 20).1.scene.console.outputs =
        ["0\n", "0\n"] :=
  ⟨output_limit_leaves_one_out rfl rfl (by decide) _ _ _ _ _ _ _, by decide +kernel,
    by decide +kernel⟩

/-- A dot that prints its number. -/
def once : String := ".-$#"

/-- With a limit of one, nothing is printed of the one output. -/
theorem nothing_printed_of_once :
    (execute ⟨⟨[]⟩, []⟩ once true (countingConsole 0) 0 10).2 = some .exit ∧
      (execute ⟨⟨[]⟩, []⟩ once true (countingConsole 0) 0 10).1.scene.console.outputs = ["0\n"] ∧
      (execute ⟨⟨[]⟩, []⟩ once true (countingConsole 1) 0 10).2 = some .exit ∧
      (execute ⟨⟨[]⟩, []⟩ once true (countingConsole 1) 0 10).1.scene.console.printed = "" ∧
      (execute ⟨⟨[]⟩, []⟩ once true (countingConsole 1) 0 10).1.scene.console.printed ≠
        String.join ((execute ⟨⟨[]⟩, []⟩ once true (countingConsole 0) 0
          10).1.scene.console.outputs.reverse.take 1) := by
  decide +kernel

end Machine

end DotPaths
