import DotPaths.Proofs.Requests
import Mathlib.Algebra.GroupWithZero.Nat

/-! # The pad

    In a window the output goes into a pad of 1000 lines, each text to a place of
    its own.  The place is carried on from text to text: after a text that ends
    with a newline it is the first column of the next row, after any other text it
    is behind this text.

    So the row of a text is the number of texts before it that end a line, which
    is not the number of newlines before it: newlines inside a text do not count.
    And neither the rows nor the columns stop at the edges of the pad.
-/

namespace DotPaths

/-! ## Places of texts -/

/-- A text that is put into the pad, and where it begins. -/
structure Writing where
  row : Nat
  column : Nat
  text : String
  deriving DecidableEq, Repr

/-- What happens to the pad. -/
inductive PadCall where
  | opened (lines columns : Int)
  | written (p : Writing)
  deriving DecidableEq, Repr

/-- What the event does to the pad. -/
def Event.pad? : Event → Option PadCall
  | .call (.openPad lines columns) => some (.opened lines columns)
  | .call (.padText row column text) => some (.written ⟨row, column, text⟩)
  | _ => none

namespace Console

/-- What has happened to the pad, the first first. -/
def padCalls (c : Console) : List PadCall := (c.events.filterMap Event.pad?).reverse

/-- How many newlines there are in the texts. -/
def newlines (texts : List String) : Nat := (texts.map fun text => text.toList.count '\n').sum

/-- How many of the texts end a line. -/
def lineEnds (texts : List String) : Nat := texts.countP endsLine

/-- The length of the texts after the last one that ends a line. -/
def pending (texts : List String) : Nat :=
  ((texts.reverse.takeWhile fun text => !endsLine text).map String.length).sum

theorem lineEnds_concat (texts : List String) (text : String) :
    lineEnds (texts ++ [text]) = if endsLine text then lineEnds texts + 1 else lineEnds texts := by
  unfold lineEnds
  rw [List.countP_append, List.countP_singleton]
  split <;> rfl

theorem pending_concat (texts : List String) (text : String) :
    pending (texts ++ [text]) = if endsLine text then 0 else pending texts + text.length := by
  unfold pending
  rw [List.reverse_concat, List.takeWhile_cons]
  cases endsLine text with
  | true => rfl
  | false =>
    simp only [Bool.not_false, if_true, List.map_cons, List.sum_cons]
    exact Nat.add_comm _ _

/-- A newline is the one at the end of the text, or one before the end. -/
theorem count_newline (text : String) :
    text.toList.count '\n' =
      (if endsLine text then 1 else 0) + text.toList.dropLast.count '\n' := by
  unfold endsLine
  -- The text is taken apart at its end, where `endsLine` looks.
  rcases List.eq_nil_or_concat text.toList with hnil | ⟨front, last, hconcat⟩
  · rw [hnil]
    rfl
  · rw [hconcat, List.concat_eq_append, List.count_append, List.dropLast_concat,
      List.getLast?_concat, Nat.add_comm]
    by_cases hlast : last = '\n'
    · subst hlast
      rfl
    · rw [List.count_singleton]
      simp [hlast]

theorem newlines_eq (texts : List String) :
    newlines texts =
      lineEnds texts + (texts.map fun text => text.toList.dropLast.count '\n').sum := by
  unfold newlines lineEnds
  induction texts with
  | nil => rfl
  | cons text texts ih =>
    rw [List.map_cons, List.sum_cons, ih, count_newline, List.countP_cons, List.map_cons,
      List.sum_cons]
    omega

/-- The texts that end a line are as many as the newlines just if there are no
    other newlines. -/
theorem lineEnds_eq_newlines_iff (texts : List String) :
    lineEnds texts = newlines texts ↔ ∀ text ∈ texts, '\n' ∉ text.toList.dropLast := by
  rw [newlines_eq, Nat.left_eq_add, List.sum_eq_zero_iff_forall_eq_nat]
  simp [List.count_eq_zero]

/-! ## Writing in order -/

/-- The text begins where the texts before it have led. -/
structure Follows (p : Writing) (earlier : List String) : Prop where
  row : p.row = lineEnds earlier
  column : p.column = 1 + pending earlier

/-- The texts before the one with a number. -/
def textsBefore (k : Nat) (writings : List Writing) : List String :=
  (writings.take k).map Writing.text

/-- The texts follow each other. -/
def InOrder (writings : List Writing) : Prop :=
  ∀ {k p}, writings[k]? = some p → Follows p (textsBefore k writings)

theorem InOrder.concat {writings : List Writing} {p : Writing} (h : InOrder writings)
    (hp : Follows p (writings.map Writing.text)) : InOrder (writings ++ [p]) := by
  intro k q hq
  rcases Nat.lt_trichotomy k writings.length with hk | rfl | hk
  · rw [List.getElem?_append_left hk] at hq
    rw [textsBefore, List.take_append_of_le_length (Nat.le_of_lt hk)]
    exact h hq
  · rw [List.getElem?_concat_length] at hq
    cases hq
    rw [textsBefore, List.take_left]
    exact hp
  · have hlast := (List.getElem?_eq_some_iff.mp hq).1
    rw [List.length_append, List.length_singleton] at hlast
    omega

/-- The window `d` has its pad, the outputs stand there in order, and the next one
    follows them. -/
structure Kept (d : Display) (c : Console) : Prop where
  service : c.service = .terminal d
  pad : ∃ writings, c.padCalls = .opened 1000 (d.columns - 1) :: writings.map .written ∧
    writings.map Writing.text = c.outputs.reverse ∧ InOrder writings
  next : Follows ⟨c.padRow, c.padColumn, ""⟩ c.outputs.reverse

theorem kept_start {d : Display} (hview : d.view = .windowed) (ticks outputs : Int)
    (input : List Char) (keys : List Int) (typed : List String) :
    Kept d (start (.terminal d) ticks outputs input keys typed) where
  service := rfl
  pad := by
    refine ⟨[], ?_, rfl, ?_⟩
    · simp [padCalls, start, hview, openingCalls, Event.pad?]
    · intro k p hp
      cases hp
  next := ⟨rfl, rfl⟩

theorem indifferent_kept (d : Display) : Indifferent (Kept d) where
  terminal h := ⟨d, h.service⟩
  idle := by
    intro c e h he
    have hnone : e.pad? = none := by
      unfold Event.pad?
      split
      · exact he.elim
      · exact he.elim
      · rfl
    refine ⟨h.service, ?_, h.next⟩
    unfold padCalls
    rw [List.filterMap_cons_none hnone]
    exact h.pad
  aside _ _ _ _ _ _ h := ⟨h.service, h.pad, h.next⟩

/-- One more text is put into the pad. -/
theorem Kept.padded {d : Display} {c : Console} (h : Kept d c) (text : CodeText) :
    Kept d (padded d text c) where
  service := h.service
  pad := by
    obtain ⟨writings, hcalls, htexts, horder⟩ := h.pad
    refine ⟨writings ++ [⟨c.padRow, c.padColumn, text.shown⟩], ?_, ?_, ?_⟩
    · have hcalls' : (Console.padded d text c).padCalls =
          c.padCalls ++ [.written ⟨c.padRow, c.padColumn, text.shown⟩] := by
        unfold padCalls
        exact List.reverse_cons ..
      rw [hcalls', hcalls, List.map_append]
      rfl
    · rw [List.map_append, htexts]
      exact (List.reverse_cons ..).symm
    · -- The place where the console was to go on is that of the new text.
      refine horder.concat ?_
      rw [htexts]
      exact ⟨h.next.row, h.next.column⟩
  next := by
    -- After the text the console goes on in its row, or in the next one.
    have hrow : c.padRow = lineEnds c.outputs.reverse := h.next.row
    have hcolumn : c.padColumn = 1 + pending c.outputs.reverse := h.next.column
    show Follows ⟨if endsLine text.shown then c.padRow + 1 else c.padRow,
      if endsLine text.shown then 1 else c.padColumn + text.shown.length, ""⟩
      (text.shown :: c.outputs).reverse
    rw [List.reverse_cons]
    constructor
    · rw [lineEnds_concat, hrow]
    · rw [pending_concat, hcolumn]
      split
      · rfl
      · exact Nat.add_assoc _ _ _

section windowed
variable {d : Display} (hview : d.view = .windowed) (hloud : d.silent = false)
include hview hloud

theorem output_kept (p : Payload) : Keeps (Kept d) (output p) := by
  intro c h
  obtain ⟨left, hlimit | ⟨text, -, hprinted⟩⟩ := endState_output h.service hview hloud p
  · rw [hlimit]
    exact ⟨h.service, h.pad, h.next⟩
  · rw [hprinted]
    have hleft : Kept d { c with outputsLeft := left } := ⟨h.service, h.pad, h.next⟩
    exact hleft.padded text

/-- Whatever is asked of the console, the pad stays in order. -/
theorem kept_serveAll (ticks outputs : Int) (input : List Char) (keys : List Int)
    (typed : List String) (demands : List Demand) :
    Kept d (serveAll demands (start (.terminal d) ticks outputs input keys typed)) := by
  refine (indifferent_kept d).serveAll (output_kept hview hloud) ?_ demands
    (kept_start hview ticks outputs input keys typed)
  -- Cells are put into the window, which the pad has nothing to do with.
  refine (indifferent_kept d).inattentive.draw fun row column glyph colour c h => ?_
  exact ⟨h.service, h.pad, h.next⟩

/-- A window is asked for outputs and anything else, in any order and number.  Its pad
    of 1000 lines is opened once and takes every output.  The row of an output is the
    number of earlier ones that end a line, and its column is one behind those since.
    So it begins inside the pad, in the row that the newlines before it lead to, just
    if the earlier ones end fewer than 1000 lines, the last line has been left with
    room, and none has a newline before its end. -/
theorem outputs_begin_inside_pad_iff (ticks outputs : Int) (input : List Char)
    (keys : List Int) (typed : List String) (demands : List Demand) :
    ∃ writings : List Writing,
      (serveAll demands (start (.terminal d) ticks outputs input keys typed)).padCalls =
        .opened 1000 (d.columns - 1) :: writings.map .written ∧
      writings.map Writing.text =
        (serveAll demands (start (.terminal d) ticks outputs input keys typed)).outputs.reverse ∧
      ∀ k p, writings[k]? = some p →
        p.row = lineEnds (textsBefore k writings) ∧
        p.column = 1 + pending (textsBefore k writings) ∧
        ((p.row < 1000 ∧ (p.column : Int) < d.columns - 1 ∧
            p.row = newlines (textsBefore k writings)) ↔
          lineEnds (textsBefore k writings) < 1000 ∧
          1 + (pending (textsBefore k writings) : Int) < d.columns - 1 ∧
          ∀ text ∈ textsBefore k writings, '\n' ∉ text.toList.dropLast) := by
  obtain ⟨writings, hcalls, htexts, horder⟩ :=
    (kept_serveAll hview hloud ticks outputs input keys typed demands).pad
  refine ⟨writings, hcalls, htexts, ?_⟩
  intro k p hp
  obtain ⟨hrow, hcolumn⟩ := horder hp
  refine ⟨hrow, hcolumn, ?_⟩
  rw [hrow, hcolumn, lineEnds_eq_newlines_iff, Int.natCast_add, Int.natCast_one]

end windowed

/-! ## A narrow window -/

/-- A terminal of six columns and 24 lines. -/
def narrowWindow : Display :=
  { view := .windowed, silent := false, columns := 6, lines := 24, viewLines := 16,
    autostep := .int 1 }

/-- The console of the narrow window after these demands. -/
def narrowly (demands : List Demand) : Console :=
  serveAll demands (start (.terminal narrowWindow) 0 0 [] [] [])

/-- Something is printed in two lines, with a question between them. -/
def greeting : List Demand :=
  [.output (.text "hi"), .output (.text "\n"), .read true, .output (.text "you")]

/-- The second line of the greeting begins inside the pad, below the newline. -/
theorem greeting_begins_inside_pad :
    ∃ (writings : List Writing) (p : Writing),
      (narrowly greeting).padCalls = .opened 1000 5 :: writings.map .written ∧
      writings[2]? = some p ∧ p.text = "you" ∧
      p.row < 1000 ∧ (p.column : Int) < 5 ∧ p.row = newlines ["hi", "\n"] := by
  obtain ⟨writings, hcalls, htexts, hplaces⟩ :=
    outputs_begin_inside_pad_iff (d := narrowWindow) rfl rfl 0 0 [] [] [] greeting
  have houtputs : (narrowly greeting).outputs.reverse = ["hi", "\n", "you"] := by decide +kernel
  have hall : writings.map Writing.text = ["hi", "\n", "you"] := htexts.trans houtputs
  have hbefore : textsBefore 2 writings = ["hi", "\n"] := by
    rw [textsBefore, List.map_take, hall]
    rfl
  have hthird : (writings[2]?).map Writing.text = some "you" := by
    rw [← List.getElem?_map, hall]
    rfl
  obtain ⟨p, hp, htext⟩ := Option.map_eq_some_iff.mp hthird
  obtain ⟨-, -, hinside⟩ := hplaces 2 p hp
  rw [hbefore] at hinside
  exact ⟨writings, p, hcalls, hp, htext, hinside.mpr (by decide)⟩

/-- After two newlines in one output the next one begins in the second row and not in
    the third; and after six characters the next one begins behind the pad, which has
    five columns. -/
theorem outputs_begin_elsewhere :
    (narrowly [.output (.text "\n\n"), .output (.text "10\n")]).padCalls =
        [.opened 1000 5, .written ⟨0, 1, "\n\n"⟩, .written ⟨1, 1, "10\n"⟩] ∧
      newlines ["\n\n"] = 2 ∧
      (narrowly [.output (.text "abcdef"), .output (.text "g")]).padCalls =
        [.opened 1000 5, .written ⟨0, 1, "abcdef"⟩, .written ⟨0, 7, "g"⟩] := by
  decide +kernel

end Console

end DotPaths
