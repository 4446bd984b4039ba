import Mathlib.Data.Nat.Digits.Defs
import DotPaths.Proofs.Whereabouts

/-! # Numbers in the drawing

    A number is drawn as a sign and digits behind it: `#` for the value of a dot, `@`
    for its id.  A dot that comes over the sign takes the number up, one digit in each
    tick; the first digit replaces what was there, and each further one is put at the
    end.  The two signs work in the same way, each on its own number, and so do the
    digits of all scripts.

    Drawn the other way round the same characters are a path like any other: a dot
    that comes to the digits first travels over them, and what the sign begins is over
    at the next character of the path.
-/

namespace DotPaths

/-! ## Digits -/

namespace Text

/-- The number that digits denote, the first one being the foremost. -/
def decimal (text : List Char) : Nat :=
  Nat.ofDigits 10 (text.reverse.map fun c => (digitValue? c).getD 0)

theorem decimal_concat {c : Char} {digit : Nat} (text : List Char)
    (h : digitValue? c = some digit) : decimal (text ++ [c]) = decimal text * 10 + digit := by
  unfold decimal
  rw [List.reverse_concat, List.map_cons, h, Option.getD_some, Nat.ofDigits_cons]
  omega

/-- A character that is no digit differs from one that is. -/
theorem beq_of_isDigit {c x : Char} (h : isDigit c = true) (hx : isDigit x = false) :
    (c == x) = false := by
  rw [beq_eq_false_iff_ne]
  rintro rfl
  rw [h] at hx
  cases hx

theorem beq_of_isDigit_of_all {c : Char} (h : isDigit c = true) {signs : List Char}
    (hsigns : signs.all (fun x => !isDigit x) = true) : ∀ x ∈ signs, (c == x) = false := by
  intro x hx
  have hnone := List.all_eq_true.mp hsigns x hx
  exact beq_of_isDigit h (by simpa using hnone)

end Text

/-! ## Places in a row -/

/-- The position that is `k` steps away in a direction. -/
def Pos.along (p dir : Pos) (k : Int) : Pos := ⟨p.x + k * dir.x, p.y + k * dir.y⟩

theorem Pos.along_zero (p dir : Pos) : p.along dir 0 = p := by
  simp [along]

theorem Pos.along_add (p dir : Pos) (k : Int) : p.along dir k + dir = p.along dir (k + 1) := by
  show Pos.mk _ _ = Pos.mk _ _
  simp only [along, add_mul]
  congr 1 <;> omega

theorem Pos.along_add_neg (p dir : Pos) (k : Int) :
    p.along dir k + -dir = p.along dir (k - 1) := by
  show Pos.mk _ _ = Pos.mk _ _
  simp only [along, sub_mul, neg_x, neg_y]
  congr 1 <;> omega

/-! ## The two numbers of a dot -/

/-- One of the two numbers of a dot. -/
inductive Slot where
  | value
  | id

namespace Slot

/-- The sign before digits that are meant for this number. -/
def sign : Slot → Char
  | .value => '#'
  | .id => '@'

/-- The number itself. -/
def of (d : Dot) : Slot → Number
  | .value => d.value
  | .id => d.id

/-- The dot with this number replaced. -/
def put (d : Dot) (a : Number) : Slot → Dot
  | .value => { d with value := a }
  | .id => { d with id := a }

/-- Taking this number up. -/
def phase (e : Entry) : Slot → Phase
  | .value => .value e
  | .id => .ident e

variable {slot : Slot} {d : Dot} {c : Cell} {e : Entry}

theorem phase_ne_meet (slot : Slot) (e : Entry) (m : Meeting) : slot.phase e ≠ .meet m := by
  cases slot <;> exact Phase.noConfusion

theorem isBlank_of_sign (hc : c.glyph = slot.sign) : c.isBlank = false := by
  rw [Cell.isBlank, hc]
  cases slot <;> decide

/-- At its sign, a travelling dot begins to take a number up. -/
theorem choose_sign (hphase : d.phase = .travel) (hc : c.glyph = slot.sign) :
    d.choose c = .ok (slot.phase {}) := by
  cases slot <;> simp [Dot.choose, hphase, Dot.travelPhase, hc, sign, phase]

/-- At a digit it goes on with that. -/
theorem choose_digit (hphase : d.phase = slot.phase e) (hc : Text.isDigit c.glyph = true) :
    d.choose c = .ok (slot.phase e) := by
  cases slot with
  | value => simp [Dot.choose, hphase, phase, Dot.continuesEntry, hc]
  | id => simp [Dot.choose, hphase, phase, Dot.identPhase, Dot.continuesEntry, hc]

theorem deed_eq (w : World) (hphase : d.phase = slot.phase e) :
    d.deed w c = d.entryDeed c e (slot.of d) (fun d a => slot.put d a) fun e => slot.phase e := by
  cases slot <;> simp only [Dot.deed, hphase, phase, of, put]

/-! ### Taking a number up -/

/-- A dot that came over the sign as `x` and has taken up the digits `text` since. -/
def reading (slot : Slot) (x : Dot) (text : List Char) : Dot :=
  { slot.put x (if text.isEmpty then slot.of x else .int (Text.decimal text)) with
    pos := x.pos.along x.dir (text.length + 1)
    phase := slot.phase { entered := true, started := !text.isEmpty } }

@[simp] theorem reading_pos (slot : Slot) (x : Dot) (text : List Char) :
    (slot.reading x text).pos = x.pos.along x.dir (text.length + 1) := rfl

@[simp] theorem reading_phase (slot : Slot) (x : Dot) (text : List Char) :
    (slot.reading x text).phase = slot.phase { entered := true, started := !text.isEmpty } := rfl

/-- Coming over the sign, no digit is taken up yet. -/
theorem deed_sign (w : World) (x : Dot) (c : Cell) :
    Dot.deed w { x with phase := slot.phase {} } c = .become (slot.reading x []) := by
  have hpos : x.pos + x.dir = x.pos.along x.dir 1 := by
    have h := Pos.along_add x.pos x.dir 0
    rw [Pos.along_zero] at h
    exact h
  have hphase : Dot.phase { x with phase := slot.phase {} } = slot.phase {} := rfl
  rw [deed_eq w hphase]
  cases slot <;> simp [Dot.entryDeed, reading, Dot.move, put, of, hpos]

/-- Each digit is put at the end of those that were there before. -/
theorem deed_digit (w : World) (x : Dot) (text : List Char)
    (hc : Text.isDigit c.glyph = true) :
    (slot.reading x text).deed w c = .become (slot.reading x (text ++ [c.glyph])) := by
  obtain ⟨digit, hdigit⟩ := Option.isSome_iff_exists.mp hc
  have hpos : x.pos.along x.dir (text.length + 1) + x.dir =
      x.pos.along x.dir ((text.length + 1 : Nat) + 1) := by
    rw [Pos.along_add]
    rfl
  have htake : Dot.takeDigit { entered := true, started := !text.isEmpty }
      (if text.isEmpty then slot.of x else .int (Text.decimal text)) digit =
      .int (Text.decimal (text ++ [c.glyph])) := by
    rw [Text.decimal_concat text hdigit]
    -- The first digit replaces what was there, which need not be a number of digits.
    cases text with
    | nil => simp [Dot.takeDigit, Text.decimal]
    | cons g rest => simp [Dot.takeDigit]
  have hempty : (text ++ [c.glyph]).isEmpty = false := by simp
  have hof : slot.of (slot.reading x text) =
      if text.isEmpty then slot.of x else .int (Text.decimal text) := by
    cases slot <;> rfl
  rw [deed_eq w (reading_phase slot x text), hof]
  simp only [Dot.entryDeed, hdigit, htake, Bool.not_true, Bool.false_eq_true, if_false]
  -- The old number is overwritten, whichever of the two it is.
  cases slot <;> simp [reading, Dot.move, put, hempty, hpos, -List.isEmpty_iff]

theorem isDead_reading (slot : Slot) (x : Dot) (text : List Char) :
    (slot.reading x text).isDead = false := by
  cases slot <;> rfl

theorem isPrinting_reading (slot : Slot) (x : Dot) (text : List Char) :
    (slot.reading x text).phase.isPrinting = false := by
  cases slot <;> rfl

theorem reading_dir (slot : Slot) (x : Dot) (text : List Char) :
    (slot.reading x text).dir = x.dir := by
  cases slot <;> rfl

/-- As long as no digit was taken up, the dot has the numbers that it had. -/
theorem reading_nil (slot : Slot) (x : Dot) :
    (slot.reading x []).value = x.value ∧ (slot.reading x []).id = x.id := by
  cases slot <;> exact ⟨rfl, rfl⟩

/-- With some digits, it has their number in place of one of them. -/
theorem reading_of_ne_nil (slot : Slot) (x : Dot) {text : List Char} (h : text ≠ []) :
    slot.reading x text =
      { slot.put x (.int (Text.decimal text)) with
        pos := x.pos.along x.dir (text.length + 1)
        phase := slot.phase { entered := true, started := true } } := by
  have hempty : text.isEmpty = false := by simpa using h
  simp [reading, hempty]

end Slot

/-! ## Travelling over digits -/

/-- A path that is not drawn across the direction, and no operator. -/
def Cell.IsPathAlong (c : Cell) (dir : Pos) : Prop :=
  c.kind.bracket? = none ∧
    (c.glyph = '-' ∧ dir.isVertical = false ∨ c.glyph = '|' ∧ dir.isHorizontal = false)

theorem Cell.IsPathAlong.isBlank {c : Cell} {dir : Pos} (h : c.IsPathAlong dir) :
    c.isBlank = false := by
  rcases h.2 with ⟨hc, -⟩ | ⟨hc, -⟩ <;> rw [Cell.isBlank, hc] <;> decide

namespace Dot

variable {w : World} {c : Cell} {d : Dot}

/-- To a travelling dot, a digit outside brackets is a cell to travel over. -/
theorem travelPhase_digit (hc : Text.isDigit c.glyph = true) (hbracket : c.kind.bracket? = none) :
    d.travelPhase c = .travel := by
  have hne : ∀ x ∈ [' ', '&', '~', '#', '@', '$', '[', ']', '\x7b', '\x7d', '-', '|', ':', ';'],
      (c.glyph == x) = false :=
    Text.beq_of_isDigit_of_all hc (by decide)
  simp only [List.forall_mem_cons] at hne
  simp [travelPhase, isBracket, hne, hbracket]

theorem travelDeed_digit (hc : Text.isDigit c.glyph = true) (hwarp : c.kind.warp? = none) :
    d.travelDeed w c = .become d.move := by
  have hne : ∀ x ∈ ['\\', '/', '(', ')', '>', '<', '^', 'v', '*'], (c.glyph == x) = false :=
    Text.beq_of_isDigit_of_all hc (by decide)
  simp only [List.forall_mem_cons] at hne
  simp [travelDeed, isTurn, hne, hwarp]

/-- A path along the way ends the taking up of a number before its first digit. -/
theorem choose_path {slot : Slot} (hphase : d.phase = slot.phase { entered := true })
    (hpath : c.IsPathAlong d.dir) : d.choose c = .ok .travel := by
  obtain ⟨hbracket, hglyph⟩ := hpath
  have hcontinues : continuesEntry c = false := by
    rcases hglyph with ⟨hc, -⟩ | ⟨hc, -⟩ <;> rw [continuesEntry, hc] <;> decide
  have htravel : d.travelPhase c = .travel := by
    rcases hglyph with ⟨hc, hdir⟩ | ⟨hc, hdir⟩ <;>
      simp [travelPhase, isBracket, hc, hdir, hbracket]
  cases slot with
  | value => simp [choose, hphase, Slot.phase, hcontinues, htravel]
  | id =>
    -- Before its first digit, the sign of the id may also turn to an operator or a filter.
    have hident : d.identPhase { entered := true } c = d.travelPhase c := by
      rcases hglyph with ⟨hc, -⟩ | ⟨hc, -⟩ <;>
        simp [identPhase, isBracket, hcontinues, hc, hbracket]
    simp [choose, hphase, Slot.phase, hident, htravel]

end Dot

/-! ## Numbers in the drawing -/

namespace World

/-- Nothing is drawn at the position: it is blank or does not exist. -/
def isVoid (w : World) (p : Pos) : Bool := (w.cell? p).all Cell.isBlank

/-- The digits `text` lie one after the other behind the sign at `p`. -/
structure Literal (w : World) (sign : Char) (text : List Char) (p dir : Pos) : Prop where
  sign : w.hasGlyph p sign = true
  glyph : ∀ (k : Nat) c, text[k]? = some c → w.hasGlyph (p.along dir (k + 1)) c = true
  digits : ∀ c ∈ text, Text.isDigit c = true
  nonempty : text ≠ []

/-- The `n` cells behind `p` and `p` itself are plain, and a path leads on before `p`:
    a dot can come through from the end. -/
structure OpenBackwards (w : World) (p dir : Pos) (n : Nat) : Prop where
  plain : ∀ k : Nat, k ≤ n → ∀ c, w.cell? (p.along dir k) = some c → c.kind = .plain
  path : ∃ c, w.cell? (p.along dir (-1)) = some c ∧ c.IsPathAlong (-dir)

variable {w : World} {p : Pos} {g : Char}

theorem exists_of_hasGlyph (h : w.hasGlyph p g = true) : ∃ c, w.cell? p = some c ∧ c.glyph = g := by
  obtain ⟨c, hc, hglyph⟩ := (Option.any_eq_true _ _).mp h
  exact ⟨c, hc, beq_iff_eq.mp hglyph⟩

theorem Literal.digit_at {sign : Char} {text : List Char} {dir : Pos} {k : Nat}
    (h : w.Literal sign text p dir) (hk : k < text.length) :
    ∃ c, w.cell? (p.along dir (k + 1 : Nat)) = some c ∧ Text.isDigit c.glyph = true := by
  have hget : text[k]? = some text[k] := List.getElem?_eq_getElem hk
  obtain ⟨c, hc, hglyph⟩ := exists_of_hasGlyph (h.glyph k _ hget)
  refine ⟨c, hc, ?_⟩
  rw [hglyph]
  exact h.digits _ (List.mem_of_getElem? hget)

theorem Literal.drawn_at {slot : Slot} {text : List Char} {dir : Pos} {k : Nat}
    (h : w.Literal slot.sign text p dir) (hk : k ≤ text.length) :
    ∃ c, w.cell? (p.along dir k) = some c ∧ c.isBlank = false := by
  cases k with
  | zero =>
    obtain ⟨c, hc, hglyph⟩ := exists_of_hasGlyph h.sign
    exact ⟨c, (p.along_zero dir).symm ▸ hc, Slot.isBlank_of_sign hglyph⟩
  | succ k =>
    obtain ⟨c, hc, hdigit⟩ := h.digit_at hk
    exact ⟨c, hc, Text.beq_of_isDigit hdigit (by decide)⟩

theorem isVoid_of_cell {c : Cell} (hc : w.cell? p = some c) : w.isVoid p = c.isBlank := by
  rw [isVoid, hc]
  rfl

/-- Whoever is not printing is lost exactly where nothing is drawn. -/
theorem isLost_eq {d : Dot} (h : d.phase.isPrinting = false) :
    Turn.isLost w d = w.isVoid d.pos := by
  unfold Turn.isLost isVoid
  cases w.cell? d.pos with
  | none => rfl
  | some c => simp [h]

end World

namespace Machine.Stretch

variable {w : World} {n : Nat} {run : Stretch w n} {slot : Slot} {i j : Nat} {x y : Dot}
  {text : List Char} {p dir : Pos}

/-- A dot that is not printing is there if something is drawn where it comes to. -/
theorem Makes.has_of_cell {c : Cell} (h : run.Makes i j (y.settled w))
    (hlive : y.isDead = false) (hprint : y.phase.isPrinting = false)
    (hc : w.cell? y.pos = some c) (hblank : c.isBlank = false) : run.Has i j y := by
  apply h.has hlive
  rw [World.isLost_eq hprint, World.isVoid_of_cell hc]
  exact hblank

/-! ### From the sign on -/

/-- Coming over the sign. -/
theorem Has.reads_sign (h : run.Has i j x) (hj : j < n) (hphase : x.phase = .travel)
    (hsign : w.hasGlyph x.pos slot.sign = true) :
    run.Makes i (j + 1) ((slot.reading x []).settled w) := by
  obtain ⟨c, hc, hglyph⟩ := World.exists_of_hasGlyph hsign
  exact h.become hj hc (Slot.isBlank_of_sign hglyph) (Slot.choose_sign hphase hglyph)
    (slot.phase_ne_meet _) (Slot.deed_sign w x c)

/-- Taking up one more digit. -/
theorem Makes.reads_digit {g : Char} (h : run.Makes i j ((slot.reading x text).settled w))
    (hj : j < n) (hg : w.hasGlyph (x.pos.along x.dir (text.length + 1)) g = true)
    (hdigit : Text.isDigit g = true) :
    run.Makes i (j + 1) ((slot.reading x (text ++ [g])).settled w) := by
  obtain ⟨c, hc, rfl⟩ := World.exists_of_hasGlyph hg
  have hblank : c.isBlank = false := Text.beq_of_isDigit hdigit (by decide)
  -- A digit is drawn where the dot has come to, so it is still there.
  have hhas : run.Has i j (slot.reading x text) :=
    h.has_of_cell (slot.isDead_reading x text) (slot.isPrinting_reading x text) hc hblank
  exact hhas.become hj hc hblank (Slot.choose_digit rfl hdigit) (slot.phase_ne_meet _)
    (Slot.deed_digit w x text hdigit)

/-- In each tick after the sign, a dot takes up a digit. -/
theorem Has.reads (h : run.Has i 0 x) (hphase : x.phase = .travel)
    (hliteral : w.Literal slot.sign text x.pos x.dir) :
    ∀ j, j ≤ text.length → j < n →
      run.Makes i (j + 1) ((slot.reading x (text.take j)).settled w) := by
  intro j
  -- Whether the dot is lost is left open until the next digit shows that it is not:
  -- behind the last digit there may be nothing.
  induction j with
  | zero =>
    intro _ hn
    exact h.reads_sign hn hphase hliteral.sign
  | succ j ih =>
    intro hj hn
    have hget : text[j]? = some text[j] := List.getElem?_eq_getElem hj
    have hdigit := hliteral.digits _ (List.mem_of_getElem? hget)
    have hglyph : w.hasGlyph (x.pos.along x.dir ((text.take j).length + 1)) text[j] = true := by
      rw [List.length_take_of_le (by omega)]
      exact hliteral.glyph j _ hget
    have hmakes := (ih (by omega) (by omega)).reads_digit hn hglyph hdigit
    rw [List.take_append_getElem hj] at hmakes
    exact hmakes

/-! ### From the digits on -/

/-- A travelling dot goes on over a digit. -/
theorem Has.passes_digit {c : Cell} (h : run.Has i j x) (hj : j < n) (hphase : x.phase = .travel)
    (hc : w.cell? x.pos = some c) (hdigit : Text.isDigit c.glyph = true)
    (hplain : c.kind = .plain) : run.Makes i (j + 1) (x.move.settled w) := by
  have hblank : c.isBlank = false := Text.beq_of_isDigit hdigit (by decide)
  have hchoose : x.choose c = .ok .travel := by
    simp only [Dot.choose, hphase]
    rw [Dot.travelPhase_digit hdigit (by rw [hplain]; rfl)]
  have hdeed : Dot.deed w { x with phase := .travel } c = .become x.move := by
    have hsame : { x with phase := .travel } = x := by rw [← hphase]
    rw [hsame]
    simp only [Dot.deed, hphase]
    exact Dot.travelDeed_digit hdigit (by rw [hplain]; rfl)
  exact h.become hj hc hblank hchoose (fun _ => Phase.noConfusion) hdeed

/-- A dot that comes from the end travels over the digits to the sign. -/
theorem Has.crosses (h : run.Has i 0 x) (hphase : x.phase = .travel)
    (hliteral : w.Literal slot.sign text p dir) (hopen : w.OpenBackwards p dir text.length)
    (hpos : x.pos = p.along dir text.length) (hdir : x.dir = -dir) :
    ∀ j k : Nat, j + k = text.length → j ≤ n → run.Has i j { x with pos := p.along dir k } := by
  intro j
  -- After `j` ticks the dot has `k` places to go to the sign.
  induction j with
  | zero =>
    rintro k hk -
    rw [Nat.zero_add] at hk
    rw [hk, ← hpos]
    exact h
  | succ j ih =>
    intro k hk hn
    have hhas := ih (k + 1) (by omega) (by omega)
    obtain ⟨c, hc, hdigit⟩ := hliteral.digit_at (k := k) (by omega)
    have hplain := hopen.plain (k + 1) (by omega) c hc
    have hmakes := hhas.passes_digit hn hphase hc hdigit hplain
    have hmove : Dot.move { x with pos := p.along dir (k + 1 : Nat) } =
        { x with pos := p.along dir k } := by
      simp only [Dot.move, hdir]
      rw [Pos.along_add_neg]
      simp
    rw [hmove] at hmakes
    -- The next place is a digit or the sign, so the dot is not lost there.
    obtain ⟨c', hc', hblank⟩ := hliteral.drawn_at (k := k) (by omega)
    exact hmakes.has_of_cell (by simp [Dot.isDead, hphase, Phase.isDead])
      (by simp [hphase, Phase.isPrinting]) hc' hblank

/-- Over the sign it comes to the path, with the numbers that it had. -/
theorem Has.crosses_sign (h : run.Has i 0 x) (hphase : x.phase = .travel)
    (hliteral : w.Literal slot.sign text p dir) (hopen : w.OpenBackwards p dir text.length)
    (hpos : x.pos = p.along dir text.length) (hdir : x.dir = -dir) (hn : text.length < n) :
    ∃ y, run.Has i (text.length + 1) y ∧ y.pos = p.along dir (-1) ∧ y.dir = -dir ∧
      y.phase = slot.phase { entered := true } ∧ y.value = x.value ∧ y.id = x.id := by
  have hhas := h.crosses hphase hliteral hopen hpos hdir text.length 0 rfl (by omega)
  have hzero : p.along dir (0 : Nat) = p := p.along_zero dir
  rw [hzero] at hhas
  obtain ⟨hvalue, hid⟩ := slot.reading_nil { x with pos := p }
  have hmakes := hhas.reads_sign hn hphase hliteral.sign
  have hback : (slot.reading { x with pos := p } []).pos = p.along dir (-1) := by
    rw [Slot.reading_pos, hdir]
    simp [Pos.along]
  obtain ⟨c, hc, hpath⟩ := hopen.path
  rw [← hback] at hc
  have hthere := hmakes.has_of_cell (slot.isDead_reading _ _) (slot.isPrinting_reading _ _) hc
    hpath.isBlank
  exact ⟨_, hthere, hback, (slot.reading_dir _ _).trans hdir, slot.reading_phase _ _, hvalue, hid⟩

/-- On the path it travels on, and keeps its numbers. -/
theorem Has.travels_on {c : Cell} (h : run.Has i j y) (hj : j < n)
    (hphase : y.phase = slot.phase { entered := true }) (hc : w.cell? y.pos = some c)
    (hpath : c.IsPathAlong y.dir) :
    ∃ z : Dot, run.Makes i (j + 1) (z.settled w) ∧ z.phase = .travel ∧ z.value = y.value ∧
      z.id = y.id := by
  have hchosen : y.chosen w = .ok { y with phase := .travel } := by
    simp [Dot.chosen, hc, Dot.choose_path hphase hpath, hpath.isBlank, Except.map]
  -- The path may also be an alias: wherever the dot goes, it travels.
  obtain ⟨z, new, hleads, hmakes⟩ := h.tick hj hchosen (fun _ => Phase.noConfusion) hc
  obtain ⟨hvalue, hid, htravel⟩ := Dot.travelDeed_keeps.leads hleads
  exact ⟨z, hmakes, htravel, hvalue, hid⟩

end Machine.Stretch

/-! ## Both ways -/

namespace Machine

/-- A number behind its sign, in parallel ticks on end with any other dots around.

    A dot that sets out on the sign has the number that the digits denote after one
    tick for the sign and one for each digit; nothing else about it has changed, and
    it is behind the last digit, or has been taken away if nothing is drawn there.

    A dot that sets out on the last digit, against the digits, comes to the path on
    the other side of the sign, keeps both its numbers all the way, and travels on
    with them. -/
theorem literals_both_ways {w : World} {slot : Slot} {text : List Char} {p dir : Pos}
    (h : w.Literal slot.sign text p dir) {n : Nat} (run : Stretch w n) {i : Nat} {x : Dot}
    (hx : (run.before 0).dots[i]? = some x) (hphase : x.phase = .travel) :
    (text.length + 1 ≤ n → x.pos = p → x.dir = dir →
      if w.isVoid (p.along dir (text.length + 1)) then run.number i (text.length + 1) = none
      else run.Has i (text.length + 1)
        { slot.put x (.int (Text.decimal text)) with
          pos := p.along dir (text.length + 1)
          phase := slot.phase { entered := true, started := true } }) ∧
    (text.length + 2 ≤ n → x.pos = p.along dir text.length → x.dir = -dir →
      w.OpenBackwards p dir text.length →
      (∀ j : Nat, j ≤ text.length + 1 → ∃ y, run.Has i j y ∧
        y.pos = p.along dir (text.length - j) ∧ y.value = x.value ∧ y.id = x.id) ∧
      ∃ y : Dot, run.Makes i (text.length + 2) (y.settled w) ∧ y.phase = .travel ∧
        y.value = x.value ∧ y.id = x.id) := by
  have hhas : run.Has i 0 x := ⟨i, rfl, hx⟩
  constructor
  · rintro hn rfl rfl
    have hmakes := hhas.reads hphase h text.length (Nat.le_refl _) hn
    rw [List.take_length] at hmakes
    have hlost : Turn.isLost w (slot.reading x text) =
        w.isVoid (x.pos.along x.dir (text.length + 1)) :=
      World.isLost_eq (slot.isPrinting_reading x text)
    rw [← slot.reading_of_ne_nil x h.nonempty, ← hlost]
    cases hvoid : Turn.isLost w (slot.reading x text) with
    | true => exact hmakes.gone hvoid
    | false => exact hmakes.has (slot.isDead_reading x text) hvoid
  · intro hn hpos hdir hopen
    obtain ⟨y, hy, hypos, hydir, hyphase, hvalue, hid⟩ :=
      hhas.crosses_sign hphase h hopen hpos hdir (by omega)
    constructor
    · intro j hj
      -- The path is the last place; all others belong to the number.
      rcases Nat.lt_or_eq_of_le hj with hlt | rfl
      · have hplace : (text.length : Int) - j = (text.length - j : Nat) := by omega
        rw [hplace]
        have hthere := hhas.crosses hphase h hopen hpos hdir j (text.length - j) (by omega)
          (by omega)
        exact ⟨_, hthere, rfl, rfl, rfl⟩
      · have hplace : (text.length : Int) - (text.length + 1 : Nat) = -1 := by omega
        rw [hplace]
        exact ⟨y, hy, hypos, hvalue, hid⟩
    · obtain ⟨c, hc, hpath⟩ := hopen.path
      rw [← hypos] at hc
      rw [← hydir] at hpath
      obtain ⟨z, hz, htravel, hzvalue, hzid⟩ := hy.travels_on (by omega) hyphase hc hpath
      exact ⟨z, hz, htravel, hzvalue.trans hvalue, hzid.trans hid⟩

/-- An id with digits of two scripts, and a dot on either side of it. -/
@[irreducible] def thirteen : Machine × Option Stop := launchAlone ".-@1٣-."

/-- After two ticks, one dot is on the sign and the other one on the last digit. -/
def atThirteen : Scene := (nextScene thirteen.1.world)^[2] thirteen.1.scene

def fromLeft : Dot := { pos := ⟨2, 0⟩, spawn := ⟨0, 0⟩, dir := .right }

def fromRight : Dot := { pos := ⟨4, 0⟩, spawn := ⟨6, 0⟩, dir := .left }

theorem thirteen_checked :
    thirteen.2 = none ∧ atThirteen.dots = [fromLeft, fromRight] ∧
      deserted thirteen.1.world (fun _ => false) 4 atThirteen = true ∧
      thirteen.1.world.isVoid ⟨5, 0⟩ = false := by
  decide +kernel

theorem literal_thirteen : thirteen.1.world.Literal Slot.id.sign ['1', '٣'] ⟨2, 0⟩ .right where
  sign := by decide +kernel
  glyph := by
    intro k c hc
    match k with
    | 0 => cases hc; decide +kernel
    | 1 => cases hc; decide +kernel
    | k + 2 => cases hc
  digits := List.all_eq_true.mp (by decide)
  nonempty := List.cons_ne_nil _ _

theorem openBackwards_thirteen : thirteen.1.world.OpenBackwards ⟨2, 0⟩ .right 2 where
  plain := by
    have hplain : ∀ k ∈ List.range 3,
        ((thirteen.1.world.cell? (Pos.along ⟨2, 0⟩ .right k)).all fun c => c.kind = .plain) =
          true := by
      decide +kernel
    intro k hk c hc
    have hcell := hplain k (List.mem_range.mpr (by omega))
    rw [hc] at hcell
    simpa using hcell
  path := ⟨⟨'-', .plain⟩, by decide +kernel, rfl, .inl ⟨rfl, by decide⟩⟩

/-- The dot from the left takes the id up, and that from the right does not. -/
theorem literals_at_thirteen :
    thirteen.2 = none ∧ ∃ (run : Stretch thirteen.1.world 4) (d e : Dot),
      run.before 0 = atThirteen ∧
      (run.Has 0 3 d ∧ d.pos = ⟨5, 0⟩ ∧ d.id = .int 13 ∧ d.value = .int 0) ∧
      run.Has 1 3 e ∧ e.pos = ⟨1, 0⟩ ∧ e.id = .int 0 ∧ e.value = .int 0 := by
  obtain ⟨hlaunch, hdots, hdone, hdrawn⟩ := thirteen_checked
  obtain ⟨run, hrun, -, -⟩ := exists_deserted hdone
  have hstart : run.before 0 = atThirteen := hrun 0
  have hleft : (run.before 0).dots[0]? = some fromLeft := by rw [hstart, hdots]; rfl
  have hright : (run.before 0).dots[1]? = some fromRight := by rw [hstart, hdots]; rfl
  have hforth := (literals_both_ways literal_thirteen run hleft rfl).1 (by decide) rfl rfl
  have hback := (literals_both_ways literal_thirteen run hright rfl).2 (by decide)
    (by decide) (by decide) openBackwards_thirteen
  have hbehind : Pos.along ⟨2, 0⟩ .right ((['1', '٣'].length : Int) + 1) = ⟨5, 0⟩ := by decide
  have hdecimal : Text.decimal ['1', '٣'] = 13 := by decide +kernel
  rw [hbehind, hdrawn, hdecimal] at hforth
  obtain ⟨y, hy, hpos, hvalue, hid⟩ := hback.1 3 (by decide)
  exact ⟨hlaunch, run, _, y, hstart, ⟨hforth, rfl, rfl, rfl⟩, hy, hpos, hid, hvalue⟩

end Machine

end DotPaths
