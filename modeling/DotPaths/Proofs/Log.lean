import DotPaths.Proofs.Requests

/-! # The log

    The plain view shows the output below the drawing, in the lines that the drawing
    leaves free.  It keeps a log for this.  Every text is added to the log when it is
    printed, and each time the log is cut to the lines that there is room for, though
    its last line may not be complete yet.

    Nothing is lost by cutting so early.  Only complete lines are cut off, with as
    many lines behind them as there is room for, and text at the end does not bring
    them back.

    - `Text.LastLines`: a text without the lines before its last ones.
    - `LastLines.append`: a text that has been cut can stand for the whole text,
      whatever is added to it.
    - `logged_serveAll`: whatever is asked of the plain view, its log has the last
      lines of what it has printed.
    - `unhindered_serveAll`: what it has printed is all that it was asked for, unless
      there was a limit in the way.
-/

namespace DotPaths

/-! ## Lines of a text -/

namespace Text

section pieces
variable {α : Type} {sep : α}

theorem joinWith_append {front back : List (List α)} (hfront : front ≠ [])
    (hback : back ≠ []) :
    joinWith sep (front ++ back) = joinWith sep front ++ sep :: joinWith sep back := by
  obtain ⟨next, back, rfl⟩ := List.exists_cons_of_ne_nil hback
  induction front with
  | nil => exact absurd rfl hfront
  | cons piece front ih =>
    -- `joinWith` puts the character behind a piece only if another piece follows.
    cases front with
    | nil => rfl
    | cons second front =>
      have hrest := ih (List.cons_ne_nil second front)
      simp only [List.cons_append, joinWith] at hrest ⊢
      rw [hrest, List.append_assoc, List.cons_append]

/-- What is cut off with the first pieces is the front of the text. -/
theorem joinWith_drop_suffix (pieces : List (List α)) (k : Nat) :
    joinWith sep (pieces.drop k) <:+ joinWith sep pieces := by
  have hsplit := List.take_append_drop k pieces
  by_cases hfront : pieces.take k = []
  · rw [hfront, List.nil_append] at hsplit
    exact ⟨[], by rw [List.nil_append, hsplit]⟩
  · by_cases hback : pieces.drop k = []
    · rw [hback]
      exact List.nil_suffix
    · refine ⟨joinWith sep (pieces.take k) ++ [sep], ?_⟩
      rw [List.append_assoc, List.singleton_append, ← joinWith_append hfront hback, hsplit]

variable [DecidableEq α]

theorem not_mem_of_mem_splitOn {cs piece : List α} (h : piece ∈ splitOn sep cs) :
    sep ∉ piece := by
  induction cs generalizing piece with
  | nil =>
    rw [List.mem_singleton.mp h]
    exact List.not_mem_nil
  | cons c cs ih =>
    rw [splitOn] at h
    split at h
    · rcases List.mem_cons.mp h with rfl | h
      · exact List.not_mem_nil
      · exact ih h
    · next hc =>
      -- The character is added to the first piece of the rest, and does not separate.
      cases hs : splitOn sep cs with
      | nil => exact absurd hs (splitOn_ne_nil sep cs)
      | cons first pieces =>
        rw [hs] at h ih
        rcases List.mem_cons.mp h with rfl | h
        · have hfirst := ih List.mem_cons_self
          have hsep : ¬ sep = c := fun heq => hc (beq_iff_eq.mpr heq.symm)
          simp only [List.mem_cons, hsep, hfirst, or_self, not_false_eq_true]
        · exact ih (List.mem_cons_of_mem first h)

/-- Between the pieces, and only there, stands the character that separates them. -/
theorem count_joinWith {pieces : List (List α)} (hne : pieces ≠ [])
    (hfree : ∀ piece ∈ pieces, sep ∉ piece) :
    (joinWith sep pieces).count sep + 1 = pieces.length := by
  induction pieces with
  | nil => exact absurd rfl hne
  | cons piece pieces ih =>
    have hpiece : piece.count sep = 0 := List.count_eq_zero.mpr (hfree piece List.mem_cons_self)
    cases pieces with
    | nil =>
      rw [joinWith, hpiece]
      rfl
    | cons second pieces =>
      have hrest := ih (List.cons_ne_nil second pieces) fun p hp =>
        hfree p (List.mem_cons_of_mem piece hp)
      rw [joinWith, List.count_append, hpiece, List.count_cons_self, Nat.zero_add, hrest]
      · rfl
      · simp

/-- What is left of a text if only its last `n` lines are kept.  A text has one line
    more than it has newlines.  Either these are no more than `n` lines, or the rest
    follows the newline in front of the last `n` lines. -/
inductive LastLines (newline : α) (n : Nat) (text : List α) : (rest : List α) → Prop where
  | whole (hfew : text.count newline < n) : LastLines newline n text text
  | cut {rest : List α} (hend : newline :: rest <:+ text) (hlines : rest.count newline + 1 = n) :
      LastLines newline n text rest

/-- The last pieces between newlines are the last lines. -/
theorem lastLines_splitOn {n : Int} (hn : 1 ≤ n) (text : List α) :
    LastLines sep n.toNat text (joinWith sep (lastLines n (splitOn sep text))) := by
  have hjoin := joinWith_splitOn sep text
  have hcount := count_joinWith (splitOn_ne_nil sep text) fun _ => not_mem_of_mem_splitOn
  have hlast : lastLines n (splitOn sep text) =
      (splitOn sep text).drop ((splitOn sep text).length - n.toNat) := if_pos (by omega)
  rw [hlast]
  by_cases hfew : (splitOn sep text).length ≤ n.toNat
  · rw [Nat.sub_eq_zero_of_le hfew, List.drop_zero]
    rw [hjoin] at hcount ⊢
    exact .whole (by omega)
  · -- There are pieces on either side of the cut, and a newline between them.
    generalize hk : (splitOn sep text).length - n.toNat = k
    have hfront : (splitOn sep text).take k ≠ [] :=
      List.ne_nil_of_length_pos (by rw [List.length_take]; omega)
    have hback : (splitOn sep text).drop k ≠ [] :=
      List.ne_nil_of_length_pos (by rw [List.length_drop]; omega)
    refine .cut ⟨joinWith sep ((splitOn sep text).take k), ?_⟩ ?_
    · rw [← joinWith_append hfront hback, List.take_append_drop, hjoin]
    · rw [count_joinWith hback fun piece hpiece =>
        not_mem_of_mem_splitOn (List.mem_of_mem_drop hpiece), List.length_drop]
      omega

namespace LastLines

variable {n : Nat} {text rest : List α}

/-- Lines that have been cut off stay off: what is added to the rest of a text gives
    the same last lines as if it were added to the text. -/
theorem append {more final : List α} (h : LastLines sep n text rest)
    (hfinal : LastLines sep n (rest ++ more) final) : LastLines sep n (text ++ more) final := by
  cases h with
  | whole _ => exact hfinal
  | cut hend hlines =>
    -- The newline in front of the rest stays in front of the longer rest.
    have hlonger : sep :: (rest ++ more) <:+ text ++ more := by
      obtain ⟨front, rfl⟩ := hend
      exact ⟨front, by rw [List.append_assoc, List.cons_append]⟩
    cases hfinal with
    | whole hfew =>
      -- No line has been completed, so there are `n` lines behind the old cut still.
      refine .cut hlonger ?_
      rw [List.count_append] at hfew ⊢
      omega
    | cut hend' hlines' =>
      -- The new cut is behind the old one, in what both texts have in common.
      exact .cut (hend'.trans ((List.suffix_cons sep (rest ++ more)).trans hlonger)) hlines'

theorem not_few (hend : sep :: rest <:+ text) (hlines : rest.count sep + 1 = n) :
    ¬ text.count sep < n := by
  have hcount := hend.sublist.count_le sep
  rw [List.count_cons_self] at hcount
  omega

/-- Of two rests with the same number of lines, neither can be longer. -/
theorem eq_of_suffix {rest' : List α} (h : sep :: rest <:+ sep :: rest')
    (hlines : rest.count sep = rest'.count sep) : rest = rest' := by
  rcases List.suffix_cons_iff.mp h with heq | hsuffix
  · exact (List.cons.inj heq).2
  · have hcount := hsuffix.sublist.count_le sep
    rw [List.count_cons_self] at hcount
    omega

theorem unique {rest' : List α} (h : LastLines sep n text rest) (h' : LastLines sep n text rest') :
    rest = rest' := by
  cases h with
  | whole hfew =>
    cases h' with
    | whole _ => rfl
    | cut hend' hlines' => exact absurd hfew (not_few hend' hlines')
  | cut hend hlines =>
    cases h' with
    | whole hfew => exact absurd hfew (not_few hend hlines)
    | cut hend' hlines' =>
      rcases List.suffix_or_suffix_of_suffix hend hend' with hsuffix | hsuffix
      · exact eq_of_suffix hsuffix (by omega)
      · exact (eq_of_suffix hsuffix (by omega)).symm

end LastLines

end pieces

end Text

/-! ## Printing in the plain view -/

namespace Console

variable {d : Display} {c : Console} {ticks outputs : Nat} {texts : List CodeText}

/-- The log of the terminal `d` has the last lines of all that has been printed. -/
structure Logged (d : Display) (c : Console) : Prop where
  service : c.service = .terminal d
  log : Text.LastLines (.char '\n') (logRoom d).toNat c.texts.reverse.flatten c.log

theorem indifferent_logged (d : Display) : Indifferent (Logged d) where
  terminal h := ⟨d, h.service⟩
  idle h _ := ⟨h.service, h.log⟩
  aside _ _ _ _ _ _ h := ⟨h.service, h.log⟩

/-- The console when a text has been noted and put into the log. -/
def logged (d : Display) (text : CodeText) (c : Console) : Console :=
  { c with log := extendLog d c.log text, texts := text :: c.texts }

/-- The log may be cut with each text, as the next one only makes it longer. -/
theorem Logged.logged (hroom : 1 ≤ logRoom d) (h : Logged d c) (text : CodeText) :
    Logged d (logged d text c) where
  service := h.service
  log := by
    show Text.LastLines _ _ (text :: c.texts).reverse.flatten _
    rw [List.reverse_cons, List.flatten_append, List.flatten_singleton]
    exact h.log.append (Text.lastLines_splitOn hroom (c.log ++ text))

/-- The limit, if there is one, is more than `n` away. -/
def Ahead (n : Nat) (left : Option Nat) : Prop := ∀ k, left = some k → n < k

theorem ahead_limit {n : Nat} {most : Int} (h : most ≤ 0 ∨ n < most) : Ahead n (limit most) := by
  intro k hk
  unfold limit at hk
  split at hk
  · cases hk
    omega
  · cases hk

namespace Ahead

variable {n : Nat} {left : Option Nat}

theorem of_succ (h : Ahead (n + 1) left) : Ahead n left := fun k hk => Nat.lt_of_succ_lt (h k hk)

/-- Something is counted, and does not reach the limit. -/
theorem countDown (h : Ahead (n + 1) left) :
    ∃ left', Console.countDown left = (left', false) ∧ Ahead n left' := by
  cases left with
  | none => exact ⟨none, rfl, fun k hk => nomatch hk⟩
  | some k =>
    have hk := h k rfl
    refine ⟨some (k - 1), ?_, ?_⟩
    · rw [Console.countDown, if_neg (by omega)]
    · intro j hj
      cases hj
      omega

end Ahead

/-- The terminal `d` has printed just these texts, and its limits are more than so many
    ticks and outputs away. -/
structure Unhindered (d : Display) (ticks outputs : Nat) (texts : List CodeText) (c : Console) :
    Prop where
  service : c.service = .terminal d
  ticksAhead : Ahead ticks c.ticksLeft
  outputsAhead : Ahead outputs c.outputsLeft
  printed : c.texts.reverse = texts

theorem inattentive_unhindered (d : Display) (ticks outputs : Nat) (texts : List CodeText) :
    Inattentive (Unhindered d ticks outputs texts) where
  terminal h := ⟨d, h.service⟩
  idle h _ := ⟨h.service, h.ticksAhead, h.outputsAhead, h.printed⟩
  aside _ _ _ _ h := ⟨h.service, h.ticksAhead, h.outputsAhead, h.printed⟩

theorem showStep_unhindered (w : World) (dots : List Pos) :
    Keeps (Unhindered d ticks outputs texts) (Observed.showStep d w dots) := by
  have hI := inattentive_unhindered d ticks outputs texts
  refine hI.showStep (hI.draw (fun row column glyph colour k h => ?_) d w dots)
  exact ⟨h.service, h.ticksAhead, h.outputsAhead, h.printed⟩

/-- A tick before the limit prints nothing, whether it completes or not. -/
theorem Unhindered.tick (h : Unhindered d (ticks + 1) outputs texts c) (w : World)
    (dots : List Pos) : Unhindered d ticks outputs texts (endState (tick w dots c)) := by
  have hcounted : Unhindered d (ticks + 1) outputs texts { c with ticks := c.ticks + 1 } :=
    ⟨h.service, h.ticksAhead, h.outputsAhead, h.printed⟩
  have hshown := showStep_unhindered w dots _ hcounted
  rw [tick_eq h.service]
  cases hs : Observed.showStep d w dots { c with ticks := c.ticks + 1 } with
  | ok u k =>
    have hk : Unhindered d (ticks + 1) outputs texts k := by
      rw [hs] at hshown
      exact hshown
    obtain ⟨left, hleft, hahead⟩ := hk.ticksAhead.countDown
    rw [bind_of_ok hs, countTick_eq, hleft]
    exact ⟨hk.service, hahead, hk.outputsAhead, hk.printed⟩
  | error e k =>
    -- The run has ended while it was drawing or waiting, and the tick is not counted.
    rw [hs] at hshown
    rw [bind_of_error hs]
    exact ⟨hshown.service, hshown.ticksAhead.of_succ, hshown.outputsAhead, hshown.printed⟩

/-! ## Demands and their texts -/

/-- What is printed to meet the demand, unless there is a limit in the way.  A number
    may have no text. -/
def Demand.text? : Demand → Option CodeText
  | .output p => p.render.toOption
  | .report text => some ("error: " ++ text : String)
  | .read _ | .tick _ _ | .finish => none

/-- Is the demand a tick? -/
def Demand.isTick : Demand → Bool
  | .tick _ _ => true
  | _ => false

section plain
variable (hview : d.view = .plain) (hloud : d.silent = false)
include hview hloud

/-- An output that does not reach the limit goes into the log. -/
theorem output_plain {p : Payload} {text : CodeText} {left : Option Nat}
    (hservice : c.service = .terminal d) (hp : p.render = .ok text)
    (hleft : countDown c.outputsLeft = (left, false)) :
    output p c = .ok () (logged d text { c with outputsLeft := left }) := by
  have hdisplay : display d text = modify fun c => { c with log := extendLog d c.log text } := by
    unfold display
    rw [hview, hloud]
    rfl
  rw [output_of_room hservice hp hleft, hdisplay]
  rfl

theorem output_logged (hroom : 1 ≤ logRoom d) (p : Payload) : Keeps (Logged d) (output p) := by
  intro c h
  cases hp : p.render with
  | error f =>
    rw [output_of_error h.service hp]
    exact h
  | ok text =>
    cases hleft : countDown c.outputsLeft with
    | mk left reached =>
      have hcounted : Logged d { c with outputsLeft := left } := ⟨h.service, h.log⟩
      cases reached with
      | true =>
        rw [output_at_limit h.service hp hleft]
        exact hcounted
      | false =>
        rw [output_plain hview hloud h.service hp hleft]
        exact hcounted.logged hroom text

/-- Whatever is asked of the console, and wherever its limits are, the log has the last
    lines of what it has printed. -/
theorem logged_serveAll (hroom : 1 ≤ logRoom d) (demands : List Demand) (h : Logged d c) :
    Logged d (serveAll demands c) := by
  refine (indifferent_logged d).serveAll (output_logged hview hloud hroom) ?_ demands h
  -- The drawing is shown above the log, which it leaves alone.
  refine (indifferent_logged d).inattentive.draw fun row column glyph colour k h => ?_
  exact ⟨h.service, h.log⟩

/-- Before the limit, an output with a text is printed. -/
theorem Unhindered.output {p : Payload} {text : CodeText}
    (h : Unhindered d ticks (outputs + 1) texts c) (hp : p.render = .ok text) :
    ∃ k, output p c = .ok () k ∧ Unhindered d ticks outputs (texts ++ [text]) k := by
  obtain ⟨left, hleft, hahead⟩ := h.outputsAhead.countDown
  refine ⟨_, output_plain hview hloud h.service hp hleft, h.service, h.ticksAhead, hahead, ?_⟩
  show (text :: c.texts).reverse = texts ++ [text]
  rw [List.reverse_cons, h.printed]

/-- One demand takes at most one tick or one output from the limits, and prints its
    text. -/
theorem Unhindered.serve (demand : Demand)
    (h : Unhindered d (ticks + if demand.isTick then 1 else 0)
      (outputs + demand.text?.toList.length) texts c) :
    Unhindered d ticks outputs (texts ++ demand.text?.toList) (demand.serve c) := by
  have hI := inattentive_unhindered d ticks outputs texts
  cases demand with
  | output p =>
    cases hp : p.render with
    | error f =>
      have hnone : (Demand.output p).text? = none := by rw [Demand.text?, hp]; rfl
      rw [hnone] at h ⊢
      rw [Demand.serve, output_of_error h.service hp, Option.toList_none, List.append_nil]
      exact h
    | ok text =>
      have hsome : (Demand.output p).text? = some text := by rw [Demand.text?, hp]; rfl
      rw [hsome] at h ⊢
      obtain ⟨k, hk, hprinted⟩ := h.output hview hloud hp
      rw [Demand.serve, hk]
      exact hprinted
  | read byCode =>
    show Unhindered d ticks outputs (texts ++ []) (endState (Console.read byCode c))
    rw [List.append_nil]
    exact hI.read byCode c h
  | report text =>
    -- The run ends with a report, but not before it has been printed.
    obtain ⟨k, hk, hprinted⟩ :=
      Unhindered.output hview hloud h (p := .text ("error: " ++ text : String)) rfl
    rw [Demand.serve, report_eq h.service, bind_of_ok hk]
    exact hprinted
  | tick w dots =>
    show Unhindered d ticks outputs (texts ++ []) (endState (Console.tick w dots c))
    rw [List.append_nil]
    exact h.tick w dots
  | finish =>
    show Unhindered d ticks outputs (texts ++ []) (endState (Console.finish c))
    rw [List.append_nil]
    exact hI.finish c h

/-- If the limits are farther away than the demands go, all that they ask for is
    printed in order. -/
theorem unhindered_serveAll (demands : List Demand)
    (h : Unhindered d (demands.countP Demand.isTick) (demands.filterMap Demand.text?).length
      texts c) :
    (serveAll demands c).texts.reverse = texts ++ demands.filterMap Demand.text? := by
  -- The limits and the texts so far are carried along, one demand at a time.
  induction demands generalizing texts c with
  | nil =>
    rw [List.filterMap_nil, List.append_nil]
    exact h.printed
  | cons demand demands ih =>
    have htexts : (demand :: demands).filterMap Demand.text? =
        demand.text?.toList ++ demands.filterMap Demand.text? := by
      rw [List.filterMap_cons]
      cases demand.text? with
      | none => rfl
      | some text => rfl
    rw [htexts, List.length_append, Nat.add_comm, List.countP_cons] at h
    rw [htexts, ← List.append_assoc]
    exact ih (h.serve hview hloud demand)

/-- The plain view is asked for outputs and anything else, in any order and number, with
    any limits, and there is room for a line below the drawing.  Then its log has the
    last lines of all the texts that have been printed, as many as there is room for:
    the pieces between newlines that would remain if nothing had been cut before.  And
    unless a limit has been reached, these are the texts of all the demands. -/
theorem log_has_last_lines_of_outputs (hroom : 1 ≤ logRoom d) (ticks outputs : Int)
    (input : List Char) (keys : List Int) (typed : List String) (demands : List Demand) :
    let c := serveAll demands (start (.terminal d) ticks outputs input keys typed)
    let printed := c.texts.reverse.flatten
    c.log = Text.joinWith (.char '\n')
      (Text.lastLines (logRoom d) (Text.splitOn (.char '\n') printed)) ∧
    Text.LastLines (.char '\n') (logRoom d).toNat printed c.log ∧
    ((ticks ≤ 0 ∨ (demands.countP Demand.isTick : Int) < ticks) →
      (outputs ≤ 0 ∨ ((demands.filterMap Demand.text?).length : Int) < outputs) →
      c.texts.reverse = demands.filterMap Demand.text?) := by
  intro c printed
  have hstart : Logged d (start (.terminal d) ticks outputs input keys typed) :=
    ⟨rfl, .whole (by rw [Int.lt_toNat]; exact hroom)⟩
  have hlogged : Logged d c := logged_serveAll hview hloud hroom demands hstart
  refine ⟨?_, hlogged.log, ?_⟩
  · -- Cutting once at the end gives last lines as well, and there is only one way.
    exact hlogged.log.unique (Text.lastLines_splitOn hroom printed)
  · intro hticks houtputs
    have hunhindered : Unhindered d (demands.countP Demand.isTick)
        (demands.filterMap Demand.text?).length []
        (start (.terminal d) ticks outputs input keys typed) :=
      ⟨rfl, ahead_limit hticks, ahead_limit houtputs, rfl⟩
    exact unhindered_serveAll hview hloud demands hunhindered

end plain

/-! ## A low screen -/

/-- A terminal of eight lines, of which two are left for the output. -/
def lowScreen : Display :=
  { view := .plain, silent := false, columns := 20, lines := 8, viewLines := 5,
    autostep := .int 1 }

/-- Four lines are printed, the last two of them in parts. -/
def piecemeal : List Demand :=
  [.output (.text "one\ntwo\nth"), .tick ⟨[], 0⟩ [], .output (.text "ree\n"), .read true,
   .output (.number (.int 4)), .report "no"]

/-- The third line is whole in the log, although only a part of it was there when the
    first line was cut off. -/
theorem piecemeal_on_lowScreen :
    logRoom lowScreen = 2 ∧
      (serveAll piecemeal (start (.terminal lowScreen) 5 9 ['x'] [] [])).texts.reverse =
        ["one\ntwo\nth", "ree\n", "4", "error: no"].map CodeText.ofString ∧
      (serveAll piecemeal (start (.terminal lowScreen) 5 9 ['x'] [] [])).log =
        CodeText.ofString "three\n4error: no" := by
  obtain ⟨hlog, -, hprinted⟩ :=
    log_has_last_lines_of_outputs (d := lowScreen) rfl rfl (by decide) 5 9 ['x'] [] [] piecemeal
  have htexts : piecemeal.filterMap Demand.text? =
      ["one\ntwo\nth", "ree\n", "4", "error: no"].map CodeText.ofString := by decide +kernel
  have houtputs := (hprinted (.inr (by decide)) (.inr (by rw [htexts]; decide))).trans htexts
  refine ⟨rfl, houtputs, ?_⟩
  rw [hlog, houtputs]
  decide +kernel

end Console

end DotPaths
