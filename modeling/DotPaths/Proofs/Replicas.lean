import DotPaths.Proofs.Kinds
import DotPaths.Proofs.Regions

/-! # Replicas of a region

    The same text may be drawn at several places, in one world or in different
    ones.  Then the regions are replicas of each other: their cells look alike, and
    what leads from one cell to another leads between the corresponding cells.  So
    dots that stand in the one region as others do in the other choose and act in
    the same way.

    - `Replica`: the regions are alike, but for a displacement.
    - `Dot.recast`: a dot as it stands in the other region.  What it remembers from
      outside may be something else there.
    - `Replica.chosen_recast`, `Replica.nextInside_recast`: what is chosen, and what a
      tick leaves.
-/

namespace DotPaths

namespace Pos

theorem add_right_comm (p q r : Pos) : p + q + r = p + r + q := by
  show Pos.mk _ _ = Pos.mk _ _
  simp only [add_x, add_y, Pos.mk.injEq]
  omega

theorem add_left_inj {p q δ : Pos} : p + δ = q + δ ↔ p = q := by
  obtain ⟨x, y⟩ := p
  obtain ⟨x', y'⟩ := q
  show Pos.mk _ _ = Pos.mk _ _ ↔ _
  simp only [Pos.mk.injEq]
  omega

end Pos

/-! ## Cells -/

namespace CellKind

@[simp] theorem bare_isOperator (k : CellKind) : k.bare.isOperator = k.isOperator := by
  cases k <;> rfl

@[simp] theorem bare_bracket? (k : CellKind) : k.bare.bracket? = k.bracket? := by
  cases k <;> rfl

@[simp] theorem bare_role? (k : CellKind) : k.bare.role? = k.role? := by
  cases k <;> rfl

end CellKind

/-- The cell `c'` looks like `c`, and it leads as far ahead. -/
structure Cell.Resembles (δ : Pos) (c c' : Cell) : Prop where
  look : c'.look = c.look
  target : c'.kind.target = c.kind.target.map (Option.map (· + δ))

namespace Cell.Resembles

variable {δ : Pos} {c c' : Cell}

theorem glyph (h : c.Resembles δ c') : c'.glyph = c.glyph := congrArg Prod.fst h.look

theorem bare (h : c.Resembles δ c') : c'.kind.bare = c.kind.bare := congrArg Prod.snd h.look

theorem isOperator (h : c.Resembles δ c') : c'.kind.isOperator = c.kind.isOperator := by
  rw [← CellKind.bare_isOperator, h.bare, CellKind.bare_isOperator]

theorem bracket? (h : c.Resembles δ c') : c'.kind.bracket? = c.kind.bracket? := by
  rw [← CellKind.bare_bracket?, h.bare, CellKind.bare_bracket?]

theorem role? (h : c.Resembles δ c') : c'.kind.role? = c.kind.role? := by
  rw [← CellKind.bare_role?, h.bare, CellKind.bare_role?]

theorem isBlank (h : c.Resembles δ c') : c'.isBlank = c.isBlank := by
  unfold Cell.isBlank
  rw [h.glyph]

end Cell.Resembles

/-- The region `R'` of `w'` is like the region `R` of `w`, but for the displacement.
    There are no entrances to other libraries in it. -/
structure Replica (w : World) (R : Region) (w' : World) (R' : Region) (δ : Pos) : Prop where
  region : ∀ p, R' (p + δ) = R p
  cells : ∀ p, R p = true → Option.Rel (Cell.Resembles δ) (w.cell? p) (w'.cell? (p + δ))
  closed : ∀ p c v, R p = true → w.cell? p = some c → c.kind.warp? = some v →
    v.role = .letter ∨ v.role = .exposed

/-! ## Dots -/

/-- What a deed makes of its dot that does not need the console. -/
def Deed.quiet? : Deed → Option (Option Dot)
  | .print .. | .read .. => none
  | deed => some deed.result?

theorem Deed.isSilent_eq (deed : Deed) : deed.isSilent = deed.quiet?.isSome := by
  cases deed <;> rfl

theorem Deed.result?_eq (deed : Deed) : deed.result? = deed.quiet?.join := by
  cases deed <;> rfl

namespace Dot

/-- The dot in the replica. -/
def recast (δ : Pos) (σ : List Pos → List Pos) (d : Dot) : Dot :=
  { d with pos := d.pos + δ, spawn := d.spawn + δ, stack := σ d.stack }

variable {δ : Pos} {σ : List Pos → List Pos} {d : Dot} {c c' : Cell}

theorem recast_move : (d.recast δ σ).move = d.move.recast δ σ := by
  show { d.recast δ σ with pos := d.pos + δ + d.dir } = { d.recast δ σ with pos := d.pos + d.dir + δ }
  rw [Pos.add_right_comm]

theorem recast_branch (dir : Pos) : (d.recast δ σ).branch dir = (d.branch dir).recast δ σ := by
  show { (d.branch dir).recast δ σ with pos := d.pos + δ + dir } =
    { (d.branch dir).recast δ σ with pos := d.pos + dir + δ }
  rw [Pos.add_right_comm]

@[simp] theorem recast_offer : (d.recast δ σ).offer = d.offer := rfl

theorem recast_waitingAge? (p : Pos) (role : Bool) :
    (d.recast δ σ).waitingAge? (p + δ) role = d.waitingAge? p role := by
  have hpos : (d.recast δ σ).pos = p + δ ↔ d.pos = p := Pos.add_left_inj
  have hphase : (d.recast δ σ).phase = d.phase := rfl
  unfold waitingAge?
  simp only [hphase, hpos]

theorem recast_waitsAt (p : Pos) (role : Bool) :
    (d.recast δ σ).waitsAt (p + δ) role = d.waitsAt p role := by
  apply Bool.eq_iff_iff.mpr
  rw [waitsAt_iff, waitsAt_iff]
  show (∃ m, d.phase = .meet m ∧ d.pos + δ = p + δ ∧ m.master = role) ↔ _
  simp only [Pos.add_left_inj]

/-! ### Choosing -/

theorem recast_travelPhase (hc : c.Resembles δ c') :
    (d.recast δ σ).travelPhase c' = d.travelPhase c := by
  unfold travelPhase
  rw [hc.glyph, hc.isOperator, hc.bracket?]
  rfl

theorem recast_choose (hc : c.Resembles δ c') : (d.recast δ σ).choose c' = d.choose c := by
  have htravel := recast_travelPhase (d := d) (σ := σ) hc
  unfold choose identPhase printPhase continuesEntry continuesPrinting
  rw [htravel, hc.glyph, hc.bracket?]
  rfl

/-! ### Acting -/

theorem recast_entryDeed {e : Entry} {a : Number} {set : Dot → Number → Dot}
    {phase : Entry → Phase} (hc : c.Resembles δ c')
    (hset : ∀ n, set (d.recast δ σ) n = (set d n).recast δ σ) :
    ((d.recast δ σ).entryDeed c' e a set phase).quiet? =
      ((d.entryDeed c e a set phase).quiet?).map (Option.map (recast δ σ)) := by
  have hmove : ∀ e' : Entry, { d.recast δ σ with phase := phase e' }.move =
      ({ d with phase := phase e' }.move).recast δ σ :=
    fun e' => recast_move (d := { d with phase := phase e' })
  have hdigit : ∀ (n : Number) (e' : Entry),
      { set (d.recast δ σ) n with phase := phase e' }.move =
        ({ set d n with phase := phase e' }.move).recast δ σ := by
    intro n e'
    rw [hset]
    exact recast_move (d := { set d n with phase := phase e' })
  unfold entryDeed
  rw [hc.glyph]
  by_cases hentered : (!e.entered) = true
  · rw [if_pos hentered, if_pos hentered]
    exact congrArg (some <| some ·) (hmove _)
  rw [if_neg hentered, if_neg hentered]
  cases Text.digitValue? c.glyph with
  | some k => exact congrArg (some <| some ·) (hdigit _ _)
  | none =>
    dsimp only
    by_cases hcode : (c.glyph == 'a') = true
    · rw [if_pos hcode, if_pos hcode]
      exact congrArg (some <| some ·) (hmove _)
    rw [if_neg hcode, if_neg hcode]
    by_cases hread : (c.glyph == '?') = true
    · rw [if_pos hread, if_pos hread]
      rfl
    rw [if_neg hread, if_neg hread]
    exact congrArg (some <| some ·) recast_move

theorem recast_printDeed {p : Printing} (hc : c.Resembles δ c') :
    ((d.recast δ σ).printDeed c' p).quiet? =
      ((d.printDeed c p).quiet?).map (Option.map (recast δ σ)) := by
  have hmove : ∀ phase : Phase, { d.recast δ σ with phase := phase }.move =
      ({ d with phase := phase }.move).recast δ σ :=
    fun phase => recast_move (d := { d with phase := phase })
  -- What is printed does not depend on where the dot stands.
  have hnumber : ∀ a, ((d.recast δ σ).printNumber p a).quiet? =
      ((d.printNumber p a).quiet?).map (Option.map (recast δ σ)) := by
    intro a
    unfold printNumber
    cases printed p a with
    | ok payload => rfl
    | error f => rfl
  unfold printDeed
  rw [hc.glyph]
  by_cases hentered : (!p.entered) = true
  · rw [if_pos hentered, if_pos hentered]
    exact congrArg (some <| some ·) (hmove _)
  rw [if_neg hentered, if_neg hentered]
  by_cases hline : (c.glyph == '_') = true
  · rw [if_pos hline, if_pos hline]
    exact congrArg (some <| some ·) (hmove _)
  rw [if_neg hline, if_neg hline]
  by_cases hcode : (c.glyph == 'a') = true
  · rw [if_pos hcode, if_pos hcode]
    exact congrArg (some <| some ·) (hmove _)
  rw [if_neg hcode, if_neg hcode]
  by_cases hvalue : (c.glyph == '#') = true
  · rw [if_pos hvalue, if_pos hvalue]
    exact hnumber _
  rw [if_neg hvalue, if_neg hvalue]
  by_cases hident : (c.glyph == '@') = true
  · rw [if_pos hident, if_pos hident]
    exact hnumber _
  rw [if_neg hident, if_neg hident]
  exact congrArg (some <| some ·) recast_move

theorem recast_quoteDeed {q : Quoting} (hc : c.Resembles δ c') :
    ((d.recast δ σ).quoteDeed c' q).quiet? =
      ((d.quoteDeed c q).quiet?).map (Option.map (recast δ σ)) := by
  have hmove : ∀ phase : Phase, { d.recast δ σ with phase := phase }.move =
      ({ d with phase := phase }.move).recast δ σ :=
    fun phase => recast_move (d := { d with phase := phase })
  unfold quoteDeed
  by_cases hentered : (!q.entered) = true
  · rw [if_pos hentered, if_pos hentered]
    exact congrArg (some <| some ·) (hmove _)
  rw [if_neg hentered, if_neg hentered]
  cases q.mark with
  | double =>
    simp only [doubleDeed, hc.glyph]
    by_cases hmark : (c.glyph == '\x22') = true
    · rw [if_pos hmark, if_pos hmark]
      rfl
    · rw [if_neg hmark, if_neg hmark]
      exact congrArg (some <| some ·) (hmove _)
  | single =>
    simp only [singleDeed, hc.glyph]
    by_cases hmark : (c.glyph == '\x27') = true
    · rw [if_pos hmark, if_pos hmark]
      by_cases hline : q.newline = true
      · rw [if_pos hline, if_pos hline]
        rfl
      · rw [if_neg hline, if_neg hline]
        exact congrArg (some <| some ·) (hmove _)
    · rw [if_neg hmark, if_neg hmark]
      rfl

theorem recast_isTurn (hc : c.Resembles δ c') (dir : Pos) : isTurn c' dir = isTurn c dir := by
  unfold isTurn
  rw [hc.glyph]

theorem recast_turn (hc : c.Resembles δ c') (dir : Pos) : turn c' dir = turn c dir := by
  unfold turn
  rw [hc.glyph]

theorem recast_travelsOver (hc : c.Resembles δ c') :
    (d.recast δ σ).travelsOver c' = d.travelsOver c := by
  unfold travelsOver
  rw [hc.glyph]
  show (_ && !isTurn c' d.dir && _) = _
  rw [recast_isTurn hc]
  rfl

end Dot

namespace Cell.Resembles

variable {δ : Pos} {c c' : Cell}

/-- Where the one cell is a warp the other is one too, with the same role. -/
theorem warp? (h : c.Resembles δ c') {v : Warp} (hv : c.kind.warp? = some v) :
    ∃ v', c'.kind.warp? = some v' ∧ v'.role = v.role := by
  have hrole := h.role?
  unfold CellKind.role? at hrole
  rw [hv, Option.map_some] at hrole
  exact Option.map_eq_some_iff.mp hrole

theorem warp?_none (h : c.Resembles δ c') (hv : c.kind.warp? = none) : c'.kind.warp? = none := by
  have hrole := h.role?
  unfold CellKind.role? at hrole
  rw [hv, Option.map_none] at hrole
  exact Option.map_eq_none_iff.mp hrole

end Cell.Resembles

/-- A letter leads to the corresponding cell. -/
theorem Dot.recast_warpThrough {δ : Pos} {σ : List Pos → List Pos} {d : Dot} {c c' : Cell}
    {v v' : Warp} (hc : c.Resembles δ c') (hv : v.role.isRemembered = false)
    (hv' : v'.role.isRemembered = false) :
    ((d.recast δ σ).warpThrough c' v').quiet? =
      ((d.warpThrough c v).quiet?).map (Option.map (recast δ σ)) := by
  unfold warpThrough
  simp only [hv, hv', Bool.false_eq_true, if_false, hc.target]
  cases c.kind.target with
  | error f => rfl
  | ok t =>
    cases t with
    | none => rfl
    | some p => exact congrArg (some <| some ·) (recast_move (d := { d with pos := p }))

namespace Replica

variable {w w' : World} {R R' : Region} {δ : Pos} {σ : List Pos → List Pos} {d : Dot}
  {dots : List Dot}

theorem cell_of_none (h : Replica w R w' R' δ) {p : Pos} (hp : R p = true)
    (hc : w.cell? p = none) : w'.cell? (p + δ) = none := by
  have hrel := h.cells p hp
  rw [hc] at hrel
  generalize w'.cell? (p + δ) = o at hrel
  cases hrel
  rfl

theorem cell_of_some (h : Replica w R w' R' δ) {p : Pos} {c : Cell} (hp : R p = true)
    (hc : w.cell? p = some c) : ∃ c', w'.cell? (p + δ) = some c' ∧ c.Resembles δ c' := by
  have hrel := h.cells p hp
  rw [hc] at hrel
  generalize w'.cell? (p + δ) = o at hrel
  cases hrel with
  | some hcc => exact ⟨_, rfl, hcc⟩

theorem isIn_recast (h : Replica w R w' R' δ) (d : Dot) :
    (d.recast δ σ).isIn R' = d.isIn R := by
  unfold Dot.isIn
  show (R' (d.pos + δ) && _) = _
  rw [h.region]
  rfl

theorem filter_recast (h : Replica w R w' R' δ) (dots : List Dot) :
    (dots.map (Dot.recast δ σ)).filter (Dot.isIn R') =
      (dots.filter (Dot.isIn R)).map (Dot.recast δ σ) := by
  rw [List.filter_map]
  congr 2
  funext d
  exact h.isIn_recast d

/-! ### Choices -/

theorem chosen_recast (h : Replica w R w' R' δ) {d' : Dot} (hd : R d.pos = true)
    (hchosen : d.chosen w = .ok d') :
    (d.recast δ σ).chosen w' = .ok (d'.recast δ σ) := by
  unfold Dot.chosen at hchosen ⊢
  cases hc : w.cell? d.pos with
  | none =>
    rw [hc] at hchosen
    cases hchosen
    rw [show (d.recast δ σ).pos = d.pos + δ from rfl, h.cell_of_none hd hc]
    rfl
  | some c =>
    obtain ⟨c', hc', hcc⟩ := h.cell_of_some hd hc
    rw [hc] at hchosen
    rw [show (d.recast δ σ).pos = d.pos + δ from rfl, hc']
    simp only [Dot.recast_choose hcc, hcc.isBlank]
    cases hphase : d.choose c with
    | error why =>
      simp only [hphase] at hchosen
      cases hchosen
    | ok phase =>
      simp only [hphase] at hchosen
      cases hchosen
      rfl

theorem forall₂_chosen_recast (h : Replica w R w' R' δ) {F C : List Dot}
    (hF : ∀ d ∈ F, R d.pos = true)
    (hC : List.Forall₂ (fun d d' : Dot => d.chosen w = .ok d') F C) :
    List.Forall₂ (fun d d' : Dot => d.chosen w' = .ok d') (F.map (Dot.recast δ σ))
      (C.map (Dot.recast δ σ)) := by
  induction hC with
  | nil => exact .nil
  | cons hd _ ih =>
    obtain ⟨hR, hF⟩ := List.forall_mem_cons.mp hF
    exact .cons (h.chosen_recast hR hd) (ih hF)

/-! ### What a round leaves -/

theorem comesOut_recast (h : Replica w R w' R' δ) (hd : R d.pos = true) :
    (d.recast δ σ).comesOut w' = d.comesOut w := by
  apply Bool.eq_iff_iff.mpr
  rw [Dot.comesOut_iff, Dot.comesOut_iff]
  constructor
  · rintro ⟨c', v', hc', hover, hv', hrole⟩
    cases hc : w.cell? d.pos with
    | none =>
      rw [show (d.recast δ σ).pos = d.pos + δ from rfl, h.cell_of_none hd hc] at hc'
      cases hc'
    | some c =>
      obtain ⟨c'', hc'', hcc⟩ := h.cell_of_some hd hc
      cases hc'.symm.trans hc''
      cases hv : c.kind.warp? with
      | none =>
        rw [hcc.warp?_none hv] at hv'
        cases hv'
      | some v =>
        obtain ⟨v'', hv'', hsame⟩ := hcc.warp? hv
        cases hv'.symm.trans hv''
        exact ⟨c, v, rfl, (Dot.recast_travelsOver hcc).symm.trans hover, hv, hsame.symm.trans hrole⟩
  · rintro ⟨c, v, hc, hover, hv, hrole⟩
    obtain ⟨c', hc', hcc⟩ := h.cell_of_some hd hc
    obtain ⟨v', hv', hsame⟩ := hcc.warp? hv
    exact ⟨c', v', hc', (Dot.recast_travelsOver hcc).trans hover, hv', hsame.trans hrole⟩

theorem travelDeed_recast (h : Replica w R w' R' δ) {c c' : Cell} (hd : R d.pos = true)
    (hphase : d.phase = .travel) (hc : w.cell? d.pos = some c) (hcc : c.Resembles δ c')
    (hstays : d.comesOut w = false) :
    ((d.recast δ σ).travelDeed w' c').quiet? =
      ((d.travelDeed w c).quiet?).map (Option.map (Dot.recast δ σ)) := by
  unfold Dot.travelDeed
  rw [show (d.recast δ σ).dir = d.dir from rfl, Dot.recast_isTurn hcc, Dot.recast_turn hcc, hcc.glyph]
  by_cases hturn : Dot.isTurn c d.dir = true
  · rw [if_pos hturn, if_pos hturn]
    exact congrArg (some <| some ·) (Dot.recast_move (d := { d with dir := Dot.turn c d.dir }))
  rw [if_neg hturn, if_neg hturn]
  by_cases hstar : (c.glyph == '*') = true
  · rw [if_pos hstar, if_pos hstar]
    exact congrArg (some <| some ·) Dot.recast_move
  rw [if_neg hstar, if_neg hstar]
  cases hv : c.kind.warp? with
  | none =>
    rw [hcc.warp?_none hv]
    exact congrArg (some <| some ·) Dot.recast_move
  | some v =>
    obtain ⟨v', hv', hrole⟩ := hcc.warp? hv
    -- It does not go out, so the cell is a letter.
    have hne : v.role ≠ .exposed := by
      intro hexposed
      have hover : d.travelsOver c = true := by
        simp only [Dot.travelsOver, hphase, decide_true, Bool.true_and, Bool.and_eq_true,
          Bool.not_eq_true', bne_iff_ne]
        exact ⟨by simpa using hturn, by simpa using hstar⟩
      rw [Dot.comesOut_iff.mpr ⟨c, v, hc, hover, hv, hexposed⟩] at hstays
      cases hstays
    have hletter := (h.closed d.pos c v hd hc hv).resolve_right hne
    rw [hv']
    simp only [hrole, hletter]
    rw [if_neg (by decide), if_neg (by decide)]
    exact Dot.recast_warpThrough hcc (by rw [hletter]; rfl) (by rw [hrole, hletter]; rfl)

theorem deed_recast (h : Replica w R w' R' δ) {c c' : Cell} (hd : R d.pos = true)
    (hc : w.cell? d.pos = some c) (hcc : c.Resembles δ c') (hstays : d.comesOut w = false) :
    ((d.recast δ σ).deed w' c').quiet? =
      ((d.deed w c).quiet?).map (Option.map (Dot.recast δ σ)) := by
  unfold Dot.deed
  rw [show (d.recast δ σ).phase = d.phase from rfl]
  cases hphase : d.phase with
  | travel => exact h.travelDeed_recast hd hphase hc hcc hstays
  | value e => exact Dot.recast_entryDeed hcc fun _ => rfl
  | ident e => exact Dot.recast_entryDeed hcc fun _ => rfl
  | print p => exact Dot.recast_printDeed hcc
  | quote q => exact Dot.recast_quoteDeed hcc
  | _ => rfl

theorem isSilent_recast (h : Replica w R w' R' δ) (hd : R d.pos = true)
    (hsilent : d.isSilent w = true) : (d.recast δ σ).isSilent w' = true := by
  by_cases hout : d.comesOut w = true
  · apply Dot.isSilent_of_comesOut
    rw [h.comesOut_recast hd]
    exact hout
  unfold Dot.isSilent at hsilent ⊢
  cases hc : w.cell? d.pos with
  | none =>
    rw [show (d.recast δ σ).pos = d.pos + δ from rfl, h.cell_of_none hd hc]
    rfl
  | some c =>
    obtain ⟨c', hc', hcc⟩ := h.cell_of_some hd hc
    rw [show (d.recast δ σ).pos = d.pos + δ from rfl, hc']
    rw [hc] at hsilent
    show ((d.recast δ σ).deed w' c').isSilent = true
    rw [Deed.isSilent_eq, h.deed_recast hd hc hcc (by simpa using hout), Option.isSome_map,
      ← Deed.isSilent_eq]
    exact hsilent

theorem settled_recast (h : Replica w R w' R' δ) (d : Dot) :
    [(d.recast δ σ).settled w'].filter (Dot.isIn R') =
      ([d.settled w].filter (Dot.isIn R)).map (Dot.recast δ σ) := by
  by_cases hd : R d.pos = true
  · -- In the region the cells are alike, so the dot is lost in both places or in none.
    have hlost : Turn.isLost w' (d.recast δ σ) = Turn.isLost w d := by
      unfold Turn.isLost
      rw [show (d.recast δ σ).pos = d.pos + δ from rfl]
      cases hc : w.cell? d.pos with
      | none => rw [h.cell_of_none hd hc]
      | some c =>
        obtain ⟨c', hc', hcc⟩ := h.cell_of_some hd hc
        rw [hc']
        simp only [hcc.isBlank]
        rfl
    have hsettled : (d.recast δ σ).settled w' = (d.settled w).recast δ σ := by
      unfold Dot.settled
      rw [hlost]
      split
      · rfl
      · rfl
    rw [hsettled]
    exact h.filter_recast [d.settled w]
  · -- Outside of the region it does not matter what becomes of it.
    have hout : (d.settled w).isIn R = false := by simp [Dot.isIn, hd]
    have hout' : ((d.recast δ σ).settled w').isIn R' = false := by
      have hR' : R' (d.recast δ σ).pos = R d.pos := h.region d.pos
      simp [Dot.isIn, hR', hd]
    simp [hout, hout']

theorem copies_recast (h : Replica w R w' R' δ) (hd : R d.pos = true) :
    ((d.recast δ σ).copies w').filter (Dot.isIn R') =
      ((d.copies w).filter (Dot.isIn R)).map (Dot.recast δ σ) := by
  have hglyph : w'.hasGlyph (d.recast δ σ).pos '*' = w.hasGlyph d.pos '*' := by
    unfold World.hasGlyph
    rw [show (d.recast δ σ).pos = d.pos + δ from rfl]
    cases hc : w.cell? d.pos with
    | none => rw [h.cell_of_none hd hc]
    | some c =>
      obtain ⟨c', hc', hcc⟩ := h.cell_of_some hd hc
      rw [hc']
      simp [hcc.glyph]
  have hbranches : ((d.recast δ σ).branches w').filter (Dot.isIn R') =
      ((d.branches w).filter (Dot.isIn R)).map (Dot.recast δ σ) := by
    unfold Dot.branches
    rw [List.filter_map, List.filter_map, List.map_map, List.filter_filter, List.filter_filter]
    have hbranch : (d.recast δ σ).branch = Dot.recast δ σ ∘ d.branch := funext Dot.recast_branch
    rw [hbranch]
    congr 1
    apply List.filter_congr
    intro dir _
    simp only [Function.comp_apply, h.isIn_recast]
    show (_ && (_ && (w'.cell? (d.pos + δ + dir)).any _)) = _
    rw [Pos.add_right_comm]
    -- Whether there is a cell to set out to matters only inside of the region.
    by_cases hR : R (d.pos + dir) = true
    · cases hc : w.cell? (d.pos + dir) with
      | none =>
        rw [h.cell_of_none hR hc]
        rfl
      | some c =>
        obtain ⟨c', hc', hcc⟩ := h.cell_of_some hR hc
        rw [hc']
        simp only [Option.any_some, hcc.isBlank]
        rfl
    · have hout : (d.branch dir).isIn R = false := by
        have hnot : ¬ R (d.branch dir).pos = true := hR
        simp [Dot.isIn, hnot]
      rw [hout]
      rfl
  unfold Dot.copies
  rw [hglyph, show (d.recast δ σ).phase = d.phase from rfl]
  split
  · exact hbranches
  · rfl

theorem oldest?_recast (p : Pos) (role : Bool) (dots : List Dot) :
    Meeting.oldest? (p + δ) role (dots.map (Dot.recast δ σ)) = Meeting.oldest? p role dots := by
  have hfrom : ∀ i best, Meeting.oldestFrom (p + δ) role i best (dots.map (Dot.recast δ σ)) =
      Meeting.oldestFrom p role i best dots := by
    induction dots with
    | nil => exact fun _ _ => rfl
    | cons d dots ih =>
      intro i best
      rw [List.map_cons]
      unfold Meeting.oldestFrom
      rw [Dot.recast_waitingAge?]
      simp only [ih]
  unfold Meeting.oldest?
  rw [hfrom]

theorem pair?_recast (p : Pos) (dots : List Dot) :
    pair? (p + δ) (dots.map (Dot.recast δ σ)) =
      (pair? p dots).map (Prod.map (Dot.recast δ σ) (Dot.recast δ σ)) := by
  have heldest : ∀ role, eldest? (p + δ) role (dots.map (Dot.recast δ σ)) =
      (eldest? p role dots).map (Dot.recast δ σ) := by
    intro role
    unfold eldest?
    rw [oldest?_recast]
    cases Meeting.oldest? p role dots with
    | none => rfl
    | some j => exact List.getElem?_map
  unfold pair?
  rw [heldest true, heldest false]
  cases eldest? p true dots with
  | none => rfl
  | some a =>
    cases eldest? p false dots with
    | none => rfl
    | some o => rfl

theorem outcome_recast {c c' : Cell} (hcc : c.Resembles δ c') (m : Meeting) (a : Number) :
    (m.outcome c' (d.recast δ σ) a).toOption =
      ((m.outcome c d a).toOption).map (Dot.recast δ σ) := by
  have hset : ∀ b, (d.recast δ σ).setStake m b = (d.setStake m b).recast δ σ := by
    intro b
    unfold Dot.setStake
    split
    · rfl
    · rfl
  unfold Meeting.outcome
  cases m.purpose with
  | none => rfl
  | switch =>
    dsimp only
    split
    · rfl
    · rfl
  | _ =>
    simp only [hcc.isOperator, hcc.glyph]
    split
    · rw [show (d.recast δ σ).stake m = d.stake m from rfl]
      cases Operator.calculate (String.singleton c.glyph) (d.stake m) a with
      | error f => rfl
      | ok x => exact congrArg some (hset _)
    · rfl

theorem afterRound?_recast (h : Replica w R w' R' δ) (horder : Orderly dots) (hmem : d ∈ dots)
    (hd : R d.pos = true) (hstays : d.comesOut w = false) :
    ((d.recast δ σ).afterRound? w' (dots.map (Dot.recast δ σ))).toList.filter (Dot.isIn R') =
      ((d.afterRound? w dots).toList.filter (Dot.isIn R)).map (Dot.recast δ σ) := by
  have hsettled : ∀ r : Option Dot,
      ((r.map (Dot.recast δ σ)).map (Dot.settled w')).toList.filter (Dot.isIn R') =
        ((r.map (Dot.settled w)).toList.filter (Dot.isIn R)).map (Dot.recast δ σ) := by
    intro r
    cases r with
    | none => rfl
    | some r => exact h.settled_recast r
  unfold Dot.afterRound?
  rw [show (d.recast δ σ).pos = d.pos + δ from rfl]
  cases hc : w.cell? d.pos with
  | none =>
    rw [h.cell_of_none hd hc]
    exact h.filter_recast [d.die]
  | some c =>
    obtain ⟨c', hc', hcc⟩ := h.cell_of_some hd hc
    rw [hc', show (d.recast δ σ).phase = d.phase from rfl, pair?_recast]
    dsimp only
    cases hphase : d.phase.meeting? with
    | none =>
      dsimp only
      -- Whoever does not wait does the same deed in the other place.
      rw [Deed.result?_eq, h.deed_recast hd hc hcc hstays, Deed.result?_eq]
      cases (d.deed w c).quiet? with
      | none => rfl
      | some r => exact hsettled r
    | some m =>
      cases hpair : pair? d.pos dots with
      | none => exact h.filter_recast [d.waitOn m]
      | some q =>
        obtain ⟨a, o⟩ := q
        simp only [Option.map_some, Prod.map_apply, Dot.recast_offer]
        by_cases hmaster : m.master = true
        · rw [if_pos hmaster, if_pos hmaster, outcome_recast hcc]
          cases (m.outcome c d o.offer).toOption with
          | none => rfl
          | some r =>
            have hmove := Dot.recast_move (δ := δ) (σ := σ) (d := { r with phase := .travel })
            have hlast := h.settled_recast (σ := σ) ({ r with phase := .travel } : Dot).move
            rw [← hmove] at hlast
            exact hlast
        · rw [if_neg hmaster, if_neg hmaster]
          -- The one that is met dies; it is the same one in the replica.
          have hwaits : d.waitsAt d.pos false = true :=
            Dot.waitsAt_iff.mpr ⟨m, Phase.eq_meet_of_meeting? hphase, rfl, by simpa using hmaster⟩
          have hiff : o.recast δ σ = d.recast δ σ ↔ o = d := by
            refine ⟨?_, congrArg (Dot.recast δ σ)⟩
            intro heq
            have hage : (o.recast δ σ).age = (d.recast δ σ).age := by rw [heq]
            exact (other_eq_iff_age (horder.orderlyAt d.pos) hpair hmem hwaits).mpr hage
          by_cases heq : o = d
          · rw [if_pos heq, if_pos (hiff.mpr heq)]
            exact h.filter_recast [d.die]
          · rw [if_neg heq, if_neg (fun hr => heq (hiff.mp hr))]
            exact h.filter_recast [d.waitOn m]

/-! ### Ticks -/

/-- What a tick leaves in the replica. -/
theorem nextInside_recast (h : Replica w R w' R' δ) (horder : Orderly dots)
    (hdots : ∀ d ∈ dots, R d.pos = true) :
    nextInside w' R' (dots.map (Dot.recast δ σ)) =
      (nextInside w R dots).map (Dot.recast δ σ) := by
  have hfilter : (dots.map (Dot.recast δ σ)).filter (fun d => !d.comesOut w') =
      (dots.filter fun d => !d.comesOut w).map (Dot.recast δ σ) := by
    rw [List.filter_map]
    congr 1
    apply List.filter_congr
    intro d hd
    rw [Function.comp_apply, h.comesOut_recast (hdots d hd)]
  unfold nextInside
  rw [hfilter, List.flatMap_map, List.map_flatMap]
  apply List.flatMap_congr
  intro d hd
  obtain ⟨hmem, hstays⟩ := List.mem_filter.mp hd
  have hR := hdots d hmem
  unfold Dot.remains
  rw [List.filter_append, List.filter_append, List.map_append,
    h.afterRound?_recast horder hmem hR (by simpa using hstays), h.copies_recast hR]

theorem outFrom_recast (h : Replica w R w' R' δ) (hdots : ∀ d ∈ dots, R d.pos = true) :
    outFrom w' (dots.map (Dot.recast δ σ)) = (dots.filter (Dot.comesOut w)).filterMap fun d =>
      (d.recast δ σ).out?.map (Dot.settled w') := by
  rw [outFrom_eq, List.filter_map, List.filterMap_map]
  congr 1
  apply List.filter_congr
  intro d hd
  exact h.comesOut_recast (hdots d hd)

theorem orderly_recast (horder : Orderly dots) : Orderly (dots.map (Dot.recast δ σ)) := by
  unfold Orderly at horder ⊢
  rw [List.pairwise_map]
  refine horder.imp ?_
  intro a b hab
  unfold Dot.Apart at hab ⊢
  rw [show (a.recast δ σ).pos = a.pos + δ from rfl]
  simp only [Dot.recast_waitsAt]
  exact hab

end Replica

end DotPaths
