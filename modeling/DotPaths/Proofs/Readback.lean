import DotPaths.Proofs.Dialogue
import DotPaths.Proofs.Launch
import DotPaths.Proofs.Numerals
import DotPaths.Proofs.SymbolicRuns

/-! # Reading back what was printed

    The program `.-#?-$#` takes a line of the input as the value of its dot and prints
    that value.  For a line that spells an integer it prints the integer as it is always
    printed; so a line that was printed is printed again, and the rest of the input is
    left alone.  A line that spells nothing counts as zero, and the run goes on.
-/

namespace DotPaths

/-! ## Lines -/

namespace Text

/-- The text begins with the line, and `rest` is what follows: behind a newline, or
    nothing at the end of the text. -/
inductive FirstLine : List Char → List Char → List Char → Prop where
  | ended {line : List Char} (h : '\n' ∉ line) (rest : List Char) :
      FirstLine (line ++ '\n' :: rest) line rest
  | last {line : List Char} (h : '\n' ∉ line) (hne : line ≠ []) : FirstLine line line []

theorem takeLine_of_firstLine {input line rest : List Char} (h : FirstLine input line rest) :
    takeLine input = some (line, rest) := by
  have htake : ∀ {input : List Char}, input ≠ [] → takeLine input =
      some (input.takeWhile (· != '\n'), (input.dropWhile (· != '\n')).drop 1) := by
    intro input hne
    cases input with
    | nil => exact absurd rfl hne
    | cons c input => rfl
  have hinside : ∀ {line : List Char}, '\n' ∉ line → ∀ c ∈ line, (c != '\n') = true := by
    intro line hline c hc
    simp only [bne_iff_ne]
    rintro rfl
    exact hline hc
  cases h with
  | ended h rest =>
    rw [htake (by simp), List.takeWhile_append_of_pos (hinside h),
      List.dropWhile_append_of_pos (hinside h)]
    simp
  | last h hne =>
    rw [htake hne, List.takeWhile_eq_self_iff.mpr (hinside h),
      List.dropWhile_eq_nil_iff.mpr (hinside h)]
    rfl

end Text

/-- What is written for a number stands on one line. -/
theorem Integer.newline_not_mem_decimal (n : Int) : '\n' ∉ Integer.decimal n := by
  have hdigits : '\n' ∉ Nat.toDigits 10 n.natAbs := by
    intro h
    cases Text.isDigit_of_mem_toDigits n.natAbs '\n' h
  unfold Integer.decimal
  split
  · simpa using hdigits
  · exact hdigits

/-- What was read can be printed. -/
theorem Console.isTooLong_numberOfLine (line : List Char) :
    Integer.isTooLong (numberOfLine (Integer.read line)) = false := by
  cases h : Integer.read line with
  | ok n => exact Integer.isTooLong_of_spells (Integer.spells_of_read h)
  | error why =>
    have hzero : (Nat.toDigits 10 (0 : Int).natAbs).length ≤ Integer.digitLimit := by decide
    exact Integer.isTooLong_eq_false_iff.mpr hzero

/-! ## Printing the value -/

namespace Dot

variable {w : World} {x : Dot} {input : List Char}

/-- At the sign, nothing is printed yet. -/
theorem talks_sign (hphase : x.phase = .travel) (hsign : w.hasGlyph x.pos '$' = true)
    (hnext : w.hasGlyph (x.pos + x.dir) '#' = true) :
    x.Talks w input [] input { x with phase := .print { entered := true } }.move := by
  obtain ⟨c, hc, hg⟩ := World.exists_of_hasGlyph hsign
  obtain ⟨c', hc', hg'⟩ := World.exists_of_hasGlyph hnext
  have hblank : c.isBlank = false := by simp [Cell.isBlank, hg]
  have hchoose : x.choose c = .ok (.print {}) := by simp [choose, hphase, travelPhase, hg]
  have htalks := Talks.of_cell hc hblank hchoose (.prints (.become _) input)
  have hlost : Turn.isLost w { x with phase := .print { entered := true } }.move = false := by
    unfold Turn.isLost
    rw [move_pos, hc']
    simp [Cell.isBlank, hg']
  rw [settled_of_not_lost hlost] at htalks
  exact htalks

/-- Behind the sign, the value is printed. -/
theorem talks_number {n : Int} (hphase : x.phase = .print { entered := true })
    (hvalue : x.value = .int n) (hshort : Integer.isTooLong n = false)
    (hg : w.hasGlyph x.pos '#' = true) :
    x.Talks w input [Symbolic.line n] input
      ({ x with phase := .print { entered := true, done := true } }.move.settled w) := by
  obtain ⟨c, hc, hg⟩ := World.exists_of_hasGlyph hg
  have hblank : c.isBlank = false := by simp [Cell.isBlank, hg]
  have hchoose : x.choose c = .ok (.print { entered := true }) := by
    simp [choose, hphase, printPhase, continuesPrinting, hg]
  have hdeed : deed w { x with phase := .print { entered := true } } c =
      .print (.text (Symbolic.line n)) { x with phase := .print { entered := true } }
        { x with phase := .print { entered := true, done := true } }.move := by
    have hprinted : printed { entered := true } x.value = .ok (.text (Symbolic.line n)) := by
      rw [hvalue]
      simp only [printed, Symbolic.text_of_short hshort]
      rfl
    simp [deed, printDeed, printNumber, hg, hprinted]
  refine .of_cell hc hblank hchoose ?_
  rw [hdeed]
  exact .prints (.print _ _ _) input

end Dot

/-- Over `$#`, a dot with this value prints the text: nothing at the sign, and all of it
    in the next tick. -/
def Number.IsPrintedAs (a : Number) (text : String) : Prop :=
  ∀ (w : World) (x : Dot) (input : List Char), x.value = a → x.phase = .travel →
    w.hasGlyph x.pos '$' = true → w.hasGlyph (x.pos + x.dir) '#' = true →
      ∃ y z, x.Talks w input [] input y ∧ y.Talks w input [text] input z

theorem Number.isPrintedAs_line {n : Int} (h : Integer.isTooLong n = false) :
    (Number.int n).IsPrintedAs (Symbolic.line n) := by
  intro w x input hvalue hphase hsign hnext
  exact ⟨_, _, Dot.talks_sign hphase hsign hnext, Dot.talks_number rfl hvalue h hnext⟩

/-! ## The program -/

namespace Machine

/-- A dot that reads its value and prints it. -/
def readback : String := ".-#?-$#"

/-- Its drawing is a single row, which a blank closes. -/
def readbackWorld : World :=
  ⟨[[⟨'.', .start⟩, ⟨'-', .plain⟩, ⟨'#', .plain⟩, ⟨'?', .plain⟩, ⟨'-', .plain⟩, ⟨'$', .plain⟩,
    ⟨'#', .plain⟩, ⟨' ', .plain⟩]], 0⟩

theorem build_readback (shelf : Shelf) : World.build shelf readback = .ok readbackWorld := by
  unfold World.build
  cases shelf.size <;> rfl

/-- The dot of the program at the cell with number `k`. -/
def reader (k : Int) (value : Int) (phase : Phase) : Dot :=
  { pos := ⟨k, 0⟩, spawn := ⟨0, 0⟩, dir := .right, value := .int value, phase := phase }

/-- The dot goes along the row and does one thing in each tick. -/
theorem readback_dialogue {input line rest : List Char}
    (hline : Text.takeLine input = some (line, rest)) :
    Dialogue readbackWorld (reader 0 0 .travel) input
      [Symbolic.line (Console.numberOfLine (Integer.read line))] rest := by
  have hshort := Console.isTooLong_numberOfLine line
  generalize hn : Console.numberOfLine (Integer.read line) = n at hshort ⊢
  -- The way to the sign, and the line.
  have hdot : (reader 0 0 .travel).Talks readbackWorld input [] input (reader 1 0 .travel) :=
    .intro (o := reader 1 0 .travel) rfl rfl (.prints (.become _) input)
  have hpath : (reader 1 0 .travel).Talks readbackWorld input [] input (reader 2 0 .travel) :=
    .intro (o := reader 2 0 .travel) rfl rfl (.prints (.become _) input)
  have hentry : (reader 2 0 .travel).Talks readbackWorld input [] input
      (reader 3 0 (.value { entered := true })) :=
    .intro (o := reader 3 0 (.value { entered := true })) rfl rfl (.prints (.become _) input)
  have hread : (reader 3 0 (.value { entered := true })).Talks readbackWorld input [] rest
      (reader 4 n (.value { entered := true })) := by
    have hdeed := Deed.Talks.read (fun n => reader 4 n (.value { entered := true })) hline
    rw [hn] at hdeed
    exact .intro (o := reader 4 n (.value { entered := true })) rfl rfl hdeed
  -- From here on the value is the number, and the input stays.
  have hpath' : (reader 4 n (.value { entered := true })).Talks readbackWorld rest [] rest
      (reader 5 n .travel) :=
    .intro (o := reader 5 n .travel) rfl rfl (.prints (.become _) rest)
  have hsign : (reader 5 n .travel).Talks readbackWorld rest [] rest
      (reader 6 n (.print { entered := true })) :=
    Dot.talks_sign (x := reader 5 n .travel) rfl rfl rfl
  have hnumber : (reader 6 n (.print { entered := true })).Talks readbackWorld rest
      [Symbolic.line n] rest (reader 7 n (.print { entered := true, done := true })) :=
    Dot.talks_number (x := reader 6 n (.print { entered := true })) rfl rfl hshort rfl
  -- A dot that is done with printing dies on the blank at the end.
  have hend : (reader 7 n (.print { entered := true, done := true })).Talks readbackWorld rest []
      rest (reader 7 n .dead) :=
    .intro (o := reader 7 n .dead) rfl rfl (.prints (.become _) rest)
  exact .goes hdot rfl (.goes hpath rfl (.goes hentry rfl (.goes hread rfl (.goes hpath' rfl
    (.goes hsign rfl (.goes hnumber rfl (.ends hend rfl)))))))

theorem readback_no_crossing (p : Pos) : readbackWorld.hasGlyph p '*' = false := by
  unfold World.hasGlyph
  cases hc : readbackWorld.cell? p with
  | none => rfl
  | some c =>
    have hall : ∀ row ∈ readbackWorld.rows, ∀ c ∈ row, (c.glyph == '*') = false := by decide
    obtain ⟨row, hrow, hmem⟩ := World.mem_rows_of_cell? hc
    exact hall row hrow c hmem

theorem launch_readback (shelf : Shelf) (parallel : Bool) (console : Console) (traced : Nat) :
    launch shelf readback parallel console traced =
      ({ world := readbackWorld, parallel := parallel,
         scene := { dots := [reader 0 0 .travel], console := console, traceLeft := traced } },
        none) := by
  unfold launch
  rw [build_readback]
  rfl

/-- The program is launched on a terminal that shows what is printed, without limits. -/
def launchReadback (shelf : Shelf) (d : Display) (keys : List Int) (typed : List String)
    (parallel : Bool) (traced : Nat) (input : List Char) : Machine × Option Stop :=
  launch shelf readback parallel (Console.start (.terminal d) 0 0 input keys typed) traced

/-- What was launched comes to its end; it has printed these texts, which is all that is
    to be seen but for a question, and left `rest` of the input. -/
def EndsHaving (launched : Machine × Option Stop) (texts : List String) (rest : List Char) : Prop :=
  ∃ m out, launched = (m, none) ∧ m.EndsWith .exit out ∧
    out.console.texts = (texts.map CodeText.ofString).reverse ∧
    out.console.Wrote texts.reverse ∧ out.console.input = rest

section
variable (shelf : Shelf) {d : Display} (hview : d.view = .off) (hloud : d.silent = false)
  (keys : List Int) (typed : List String) (parallel : Bool) (traced : Nat)

include hview hloud

/-- The program prints the number that the first line stands for. -/
theorem readback_endsHaving {input line rest : List Char} (h : Text.FirstLine input line rest) :
    EndsHaving (launchReadback shelf d keys typed parallel traced input)
      [Symbolic.line (Console.numberOfLine (Integer.read line))] rest := by
  have hlaunch := launch_readback shelf parallel
    (Console.start (.terminal d) 0 0 input keys typed) traced
  have hconsole : (Console.start (.terminal d) 0 0 input keys typed).Unlimited [] :=
    ⟨Console.start_orderly hview hloud 0 0 input keys typed, rfl, rfl⟩
  have hdialogue := readback_dialogue (Text.takeLine_of_firstLine h)
  obtain ⟨out, hends, htexts, hwrote, hinput⟩ := endsWith_of_dialogue hdialogue rfl rfl
    (Reachable.launched hlaunch rfl).allStand readback_no_crossing hconsole
  rw [htexts, ← List.map_reverse] at hwrote
  have hall : (Console.start (.terminal d) 0 0 input keys typed).texts = [] := rfl
  rw [hall, List.append_nil, CodeText.writable_map_ofString] at hwrote
  exact ⟨_, out, hlaunch, hends, htexts, hwrote, hinput⟩

/-- A line that spells an integer is printed as that integer. -/
theorem readback_of_spells {input line rest : List Char} {n : Int}
    (h : Text.FirstLine input line rest) (hspells : Integer.Spells line n) :
    EndsHaving (launchReadback shelf d keys typed parallel traced input) [Symbolic.line n]
      rest := by
  have hends := readback_endsHaving shelf hview hloud keys typed parallel traced h
  rw [Integer.read_of_spells hspells] at hends
  exact hends

/-- Any other line is printed as zero. -/
theorem readback_of_not_spells {input line rest : List Char}
    (h : Text.FirstLine input line rest) (hnone : ∀ n, ¬ Integer.Spells line n) :
    EndsHaving (launchReadback shelf d keys typed parallel traced input) ["0\n"] rest := by
  have hends := readback_endsHaving shelf hview hloud keys typed parallel traced h
  cases hread : Integer.read line with
  | ok n => exact absurd (Integer.spells_of_read hread) (hnone n)
  | error why =>
    have hzero : Symbolic.line 0 = "0\n" := by decide
    rw [hread, Console.numberOfLine, hzero] at hends
    exact hends

/-- What is printed for an integer is read back, and printed once more.

    An integer with no more digits than the limit is printed as its digits, behind a minus
    if it is negative, and a newline.  If the input begins with that text, the program
    comes to its end with the same text as its only output, and what follows in the input
    is not read.  A first line that spells no integer makes it print a zero instead, with
    no fault; and whatever else spells an integer is read as well. -/
theorem printed_integer_read_back :
    (∀ n : Int, (Nat.toDigits 10 n.natAbs).length ≤ Integer.digitLimit →
      ∃ text, (Number.int n).IsPrintedAs text ∧
        text = String.ofList (Integer.decimal n) ++ "\n" ∧
        ∀ rest, EndsHaving
          (launchReadback shelf d keys typed parallel traced (text.toList ++ rest)) [text] rest) ∧
      (∀ input line rest, Text.FirstLine input line rest → (∀ n, ¬ Integer.Spells line n) →
        EndsHaving (launchReadback shelf d keys typed parallel traced input) ["0\n"] rest) ∧
      ∀ input line rest n, Text.FirstLine input line rest → Integer.Spells line n →
        EndsHaving (launchReadback shelf d keys typed parallel traced input)
          [String.ofList (Integer.decimal n) ++ "\n"] rest := by
  refine ⟨?_, ?_, ?_⟩
  · intro n hn
    have hshort := Integer.isTooLong_eq_false_iff.mpr hn
    refine ⟨Symbolic.line n, Number.isPrintedAs_line hshort, rfl, ?_⟩
    intro rest
    have hinput : (Symbolic.line n).toList ++ rest = Integer.decimal n ++ '\n' :: rest := by
      simp [Symbolic.line]
    rw [hinput]
    exact readback_of_spells shelf hview hloud keys typed parallel traced
      (.ended (Integer.newline_not_mem_decimal n) rest) (Integer.spells_decimal hshort)
  · intro input line rest h hnone
    exact readback_of_not_spells shelf hview hloud keys typed parallel traced h hnone
  · intro input line rest n h hspells
    exact readback_of_spells shelf hview hloud keys typed parallel traced h hspells

end

/-- A line of one digit more than the limit. -/
def overlong : List Char := List.replicate 4301 '1'

theorem overlong_not_spelled (n : Int) : ¬ Integer.Spells overlong n := by
  intro h
  have hread : (Integer.read overlong).toOption = none := by decide +kernel
  rw [Integer.read_of_spells h] at hread
  cases hread

/-- A negative number that has as many digits as the limit allows is read back, and a line
    with one digit more counts as zero; the input behind the line stays. -/
theorem read_back_at_limit :
    (∃ text, (Number.int (-tenTo 4299)).IsPrintedAs text ∧
      text = String.ofList (Integer.decimal (-tenTo 4299)) ++ "\n" ∧
      EndsHaving (launchReadback ⟨⟨[]⟩, []⟩ plainDisplay [] [] true 0 (text.toList ++ ['7', '\n']))
        [text] ['7', '\n']) ∧
      EndsHaving
        (launchReadback ⟨⟨[]⟩, []⟩ plainDisplay [] [] false 0 (overlong ++ ['\n', '7', '\n']))
        ["0\n"] ['7', '\n'] := by
  have hlength : (Nat.toDigits 10 (-(tenTo 4299 : Int)).natAbs).length ≤ Integer.digitLimit := by
    rw [← Integer.isTooLong_eq_false_iff]
    decide +kernel
  have hline : '\n' ∉ overlong := by decide +kernel
  obtain ⟨text, hprinted, htext, hends⟩ :=
    (printed_integer_read_back ⟨⟨[]⟩, []⟩ (d := plainDisplay) rfl rfl [] [] true 0).1 _ hlength
  have hzero := (printed_integer_read_back ⟨⟨[]⟩, []⟩ (d := plainDisplay) rfl rfl [] [] false 0).2.1
    _ overlong _ (.ended hline ['7', '\n']) overlong_not_spelled
  exact ⟨⟨text, hprinted, htext, hends ['7', '\n']⟩, hzero⟩

end Machine

end DotPaths
