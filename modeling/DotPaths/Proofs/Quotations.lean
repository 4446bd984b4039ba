import DotPaths.Proofs.RowPrinting

/-! # Quotations

    A text to print is drawn between two marks behind the sign `$`, and with `_` before
    the first mark no newline follows it.  A dot that goes over it passes through three
    phases, and blanks in the text do not stop it.

    Between double marks the text is printed at once, at the closing mark, so nobody
    else can print in the middle of it.  Between single marks each character is printed
    in a tick of its own, and so is the newline; taken together this is the same text.
-/

namespace DotPaths

/-- The character that a mark is drawn with. -/
def Mark.glyph : Mark → Char
  | .double => '\x22'
  | .single => '\x27'

namespace Quotation

/-- The characters up to the opening mark. -/
def opening (newline : Bool) (mark : Mark) : List Char :=
  if newline then ['$', mark.glyph] else ['$', '_', mark.glyph]

/-- The characters of a quotation, in the order in which a dot comes over them. -/
def row (newline : Bool) (mark : Mark) (text : List Char) : List Char :=
  opening newline mark ++ text ++ [mark.glyph]

/-- The text with the newline that belongs to it. -/
def body (newline : Bool) (text : List Char) : List Char :=
  if newline then text ++ ['\n'] else text

/-- What is printed, one text for each time that something is printed. -/
def outputs (newline : Bool) (mark : Mark) (text : List Char) : List String :=
  match mark with
  | .double => [String.ofList (body newline text)]
  | .single => (body newline text).map String.singleton

/-! ## One character -/

section
variable {g : Char} {buffer : List Char}

theorem printsOn_sign : Phase.PrintsOn '$' .travel (.print { entered := true }) [] := by
  refine ⟨rfl, ?_⟩
  intro w d c hphase hg
  exact ⟨.print {}, by simp [Dot.choose, hphase, Dot.travelPhase, hg], rfl, .become _⟩

theorem printsOn_tag :
    Phase.PrintsOn '_' (.print { entered := true })
      (.print { entered := true, newline := false }) [] := by
  refine ⟨rfl, ?_⟩
  intro w d c hphase hg
  refine ⟨.print { entered := true }, ?_, rfl, ?_⟩
  · simp [Dot.choose, hphase, Dot.printPhase, Dot.continuesPrinting, hg]
  · simp only [Dot.deed, Dot.printDeed, hg]
    exact .become _

/-- The first mark says how the text is printed; the newline has been settled before. -/
theorem printsOn_opening (mark : Mark) (newline : Bool) :
    Phase.PrintsOn mark.glyph (.print { entered := true, newline := newline })
      (.quote { mark := mark, entered := true, newline := newline }) [] := by
  refine ⟨rfl, ?_⟩
  intro w d c hphase hg
  refine ⟨.quote { mark := mark, newline := newline }, ?_, rfl, .become _⟩
  cases mark <;> simp [Dot.choose, hphase, Dot.printPhase, Dot.continuesPrinting, hg, Mark.glyph]

/-- Before the closing mark, whatever is on the cell belongs to the text. -/
theorem printsOn_quoting {q q' : Quoting} {out : List String} (hdone : q.done = false)
    (hdeed : ∀ (d : Dot) (c : Cell), d.phase = .quote q → c.glyph = g →
      (d.quoteDeed c q).Prints out { d with phase := .quote q' }.move) :
    Phase.PrintsOn g (.quote q) (.quote q') out := by
  refine ⟨rfl, ?_⟩
  intro w d c hphase hg
  refine ⟨.quote q, ?_, rfl, hdeed { d with phase := .quote q } c rfl hg⟩
  simp [Dot.choose, hphase, hdone]

/-- Between double marks a character is kept. -/
theorem printsOn_collecting (newline : Bool) (hg : g ≠ Mark.double.glyph) :
    Phase.PrintsOn g
      (.quote { mark := .double, entered := true, newline := newline, buffer := buffer })
      (.quote { mark := .double, entered := true, newline := newline, buffer := buffer ++ [g] })
      [] := by
  apply printsOn_quoting rfl
  rintro d c - rfl
  have hne : ¬ (c.glyph == '\x22') = true := by simpa [Mark.glyph] using hg
  show (d.doubleDeed c _).Prints [] _
  unfold Dot.doubleDeed
  rw [if_neg hne]
  exact .become _

/-- At the closing mark, what was kept is printed. -/
theorem printsOn_closing_double (newline : Bool) :
    Phase.PrintsOn Mark.double.glyph
      (.quote { mark := .double, entered := true, newline := newline, buffer := buffer })
      (.quote
        { mark := .double, entered := true, newline := newline, done := true,
          buffer := body newline buffer })
      [String.ofList (body newline buffer)] := by
  apply printsOn_quoting rfl
  intro d c _ hg
  have heq : (c.glyph == '\x22') = true := by simpa [Mark.glyph] using hg
  show (d.doubleDeed c _).Prints _ _
  unfold Dot.doubleDeed
  rw [if_pos heq]
  exact .print _ _ _

/-- Between single marks a character is printed. -/
theorem printsOn_aloud (newline : Bool) (hg : g ≠ Mark.single.glyph) :
    Phase.PrintsOn g (.quote { mark := .single, entered := true, newline := newline })
      (.quote { mark := .single, entered := true, newline := newline })
      [String.singleton g] := by
  apply printsOn_quoting rfl
  rintro d c hphase rfl
  have hne : ¬ (c.glyph == '\x27') = true := by simpa [Mark.glyph] using hg
  show (d.singleDeed c _).Prints _ _
  unfold Dot.singleDeed
  rw [if_neg hne, ← hphase]
  exact .print _ _ _

/-- At the closing mark, the newline is printed if there is one. -/
theorem printsOn_closing_single (newline : Bool) :
    Phase.PrintsOn Mark.single.glyph
      (.quote { mark := .single, entered := true, newline := newline })
      (.quote { mark := .single, entered := true, newline := newline, done := true })
      (if newline then ["\n"] else []) := by
  apply printsOn_quoting rfl
  intro d c _ hg
  have heq : (c.glyph == '\x27') = true := by simpa [Mark.glyph] using hg
  show (d.singleDeed c _).Prints _ _
  unfold Dot.singleDeed
  rw [if_pos heq]
  cases newline with
  | true => exact .print _ _ _
  | false => exact .become _

end

/-! ## The whole row -/

section
variable {text : List Char}

theorem printsAlong_opening (newline : Bool) (mark : Mark) :
    ∃ outs : List (List String), outs.flatten = [] ∧
      Phase.travel.PrintsAlong (opening newline mark) outs
        (.quote { mark := mark, entered := true, newline := newline }) := by
  cases newline with
  | true => exact ⟨[[], []], rfl, .cons printsOn_sign (.single (printsOn_opening mark true))⟩
  | false =>
    exact ⟨[[], [], []], rfl,
      .cons printsOn_sign (.cons printsOn_tag (.single (printsOn_opening mark false)))⟩

/-- Between double marks, what is kept grows by the text, and nothing is printed. -/
theorem printsAlong_collecting (newline : Bool) (h : Mark.double.glyph ∉ text)
    (buffer : List Char) :
    ∃ outs : List (List String), outs.flatten = [] ∧
      (Phase.quote
        { mark := .double, entered := true, newline := newline, buffer := buffer }).PrintsAlong
        text outs
        (.quote
          { mark := .double, entered := true, newline := newline, buffer := buffer ++ text }) := by
  -- What was kept before is arbitrary: each character goes from the text to its end.
  induction text generalizing buffer with
  | nil =>
    rw [List.append_nil]
    exact ⟨[], rfl, .nil _⟩
  | cons g text ih =>
    rw [List.mem_cons, not_or] at h
    obtain ⟨outs, hnone, hrest⟩ := ih h.2 (buffer ++ [g])
    rw [List.append_assoc, List.singleton_append] at hrest
    exact ⟨[] :: outs, hnone, .cons (printsOn_collecting newline (Ne.symm h.1)) hrest⟩

/-- Between single marks, the text is printed character by character. -/
theorem printsAlong_aloud (newline : Bool) (h : Mark.single.glyph ∉ text) :
    ∃ outs : List (List String), outs.flatten = text.map String.singleton ∧
      (Phase.quote { mark := .single, entered := true, newline := newline }).PrintsAlong text outs
        (.quote { mark := .single, entered := true, newline := newline }) := by
  induction text with
  | nil => exact ⟨[], rfl, .nil _⟩
  | cons g text ih =>
    rw [List.mem_cons, not_or] at h
    obtain ⟨outs, hall, hrest⟩ := ih h.2
    refine ⟨[String.singleton g] :: outs, ?_, .cons (printsOn_aloud newline (Ne.symm h.1)) hrest⟩
    rw [List.flatten_cons, hall]
    rfl

/-- A travelling dot prints along a quotation. -/
theorem printsAlong_row (newline : Bool) {mark : Mark} (h : mark.glyph ∉ text) :
    ∃ outs q, outs.flatten = outputs newline mark text ∧
      Phase.travel.PrintsAlong (row newline mark text) outs q := by
  obtain ⟨first, hfirst, hopening⟩ := printsAlong_opening newline mark
  -- Only the closing mark prints in one case, and everything but the opening in the other.
  cases mark with
  | double =>
    obtain ⟨middle, hmiddle, htext⟩ := printsAlong_collecting newline h []
    refine ⟨first ++ middle ++ [[String.ofList (body newline text)]], _, ?_,
      (hopening.append htext).append (.single (printsOn_closing_double newline))⟩
    rw [List.flatten_append, List.flatten_append, hfirst, hmiddle]
    rfl
  | single =>
    obtain ⟨middle, hmiddle, htext⟩ := printsAlong_aloud newline h
    refine ⟨first ++ middle ++ [if newline then ["\n"] else []], _, ?_,
      (hopening.append htext).append (.single (printsOn_closing_single newline))⟩
    rw [List.flatten_append, List.flatten_append, hfirst, hmiddle]
    cases newline <;> simp [outputs, body]

/-- The outputs of a quotation are its text, whichever way they are made. -/
theorem join_outputs (newline : Bool) (mark : Mark) (text : List Char) :
    String.join (outputs newline mark text) = String.ofList (body newline text) := by
  apply String.toList_injective
  cases mark with
  | double => simp [outputs]
  | single => simp [outputs, List.flatMap_map]

end

end Quotation

/-! ## Quotations in the drawing -/

namespace Machine

/-- A quotation is printed by a dot that comes over it, in parallel ticks with any other
    dots around, as long as none of them and no limit stops the run.

    The dot does not stop the run either.  Up to the closing mark it is on the next
    character in each tick, blanks included.  What it prints itself is the text and a
    newline, or the text alone if `_` stands before the first mark: in one piece between
    double marks, and character by character between single ones. -/
theorem quotation_printed {w : World} {s : Scene} {i : Nat} {x : Dot} {newline : Bool}
    {mark : Mark} {text : List Char} (hx : s.dots[i]? = some x) (hphase : x.phase = .travel)
    (hshows : w.ShowsRow x.pos x.dir (Quotation.row newline mark text)) (hmark : mark.glyph ∉ text)
    (hothers : Undisturbed w s i (Quotation.row newline mark text).length) :
    (∃ run : Stretch w (Quotation.row newline mark text).length, run.before 0 = s) ∧
      ∀ run : Stretch w (Quotation.row newline mark text).length, run.before 0 = s →
        (∀ k, k < (Quotation.row newline mark text).length →
          ∃ y, run.Has i k y ∧ y.pos = x.pos.along x.dir k) ∧
        run.printed i = Quotation.outputs newline mark text ∧
        String.join (run.printed i) = String.ofList (Quotation.body newline text) := by
  obtain ⟨outs, q, houts, hprints⟩ := Quotation.printsAlong_row newline hmark
  rw [← hphase] at hprints
  obtain ⟨hexists, hall⟩ := prints_along hx hshows hprints hothers
  refine ⟨hexists, ?_⟩
  intro run hstart
  obtain ⟨hplaces, hsayings⟩ := hall run hstart
  rw [hsayings, houts]
  exact ⟨hplaces, rfl, Quotation.join_outputs newline mark text⟩

/-- Two dots that print at the same time, one between double marks and one between
    single ones. -/
@[irreducible] def duet : Machine × Option Stop := launchAlone ".-$\"a  b\"\n.-$_'c d'"

/-- After two ticks, both dots are on the signs. -/
def atDuet : Scene := (nextScene duet.1.world)^[2] duet.1.scene

/-- The dots on the signs. -/
def soprano : Dot := { pos := ⟨2, 0⟩, spawn := ⟨0, 0⟩, dir := .right }

def alto : Dot := { pos := ⟨2, 1⟩, spawn := ⟨0, 1⟩, dir := .right }

/-- Do the first `n` of the characters stand in the cells from `p` on? -/
def showsUpTo (w : World) (p dir : Pos) (gs : List Char) (n : Nat) : Bool :=
  (List.range n).all fun k => gs[k]?.all (w.hasGlyph (p.along dir k))

theorem showsRow_of_showsUpTo {w : World} {p dir : Pos} {gs : List Char}
    (h : showsUpTo w p dir gs gs.length = true) : w.ShowsRow p dir gs := by
  intro k g hg
  have hk := (List.getElem?_eq_some_iff.mp hg).1
  have hall := List.all_eq_true.mp h k (List.mem_range.mpr hk)
  rw [hg] at hall
  exact hall

theorem duet_checked :
    duet.2 = none ∧ atDuet.dots = [soprano, alto] ∧
      deserted duet.1.world (fun _ => false) 7 atDuet = true ∧
      showsUpTo duet.1.world soprano.pos soprano.dir
        (Quotation.row true .double ['a', ' ', ' ', 'b']) 7 = true ∧
      showsUpTo duet.1.world alto.pos alto.dir
        (Quotation.row false .single ['c', ' ', 'd']) 7 = true := by
  decide +kernel

/-- Both texts are printed in the same seven ticks, and each dot prints its own. -/
theorem quotations_at_duet :
    duet.2 = none ∧ ∃ run : Stretch duet.1.world 7, run.before 0 = atDuet ∧
      run.printed 0 = ["a  b\n"] ∧ run.printed 1 = ["c", " ", "d"] ∧
      ∃ y, run.Has 0 6 y ∧ y.pos = ⟨8, 0⟩ := by
  obtain ⟨hlaunch, hdots, hdone, hfirst, hsecond⟩ := duet_checked
  obtain ⟨run, hrun, -, -⟩ := exists_deserted hdone
  have hstart : run.before 0 = atDuet := hrun 0
  have hothers : ∀ i, Undisturbed duet.1.world atDuet i 7 := by
    intro i
    rw [← hstart]
    exact run.undisturbed i
  obtain ⟨-, hsoprano⟩ := quotation_printed (i := 0) (x := soprano) (by rw [hdots]; rfl) rfl
    (showsRow_of_showsUpTo hfirst) (by decide) (hothers 0)
  obtain ⟨-, halto⟩ := quotation_printed (i := 1) (x := alto) (by rw [hdots]; rfl) rfl
    (showsRow_of_showsUpTo hsecond) (by decide) (hothers 1)
  obtain ⟨hplaces, hsaid, -⟩ := hsoprano run hstart
  obtain ⟨-, hsaid', -⟩ := halto run hstart
  exact ⟨hlaunch, run, hstart, hsaid, hsaid', hplaces 6 (by decide)⟩

end Machine

end DotPaths
