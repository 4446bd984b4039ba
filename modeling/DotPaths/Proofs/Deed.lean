import DotPaths.Dot.Deed

/-! # Where deeds lead

    A dot that waits for nobody does its deed without a second dot.  The deed
    leads to what the dot becomes and to the dots that set out, unless it stops
    the run.  Such a dot keeps its direction or is turned by the cell, it does
    not begin to wait, and other dots set out only at a crossing.
-/

namespace DotPaths

/-- Where a deed leads that needs no second dot: what the dot becomes, and the
    dots that set out. -/
inductive Deed.Leads : Deed → Dot → List Dot → Prop where
  | become (d : Dot) : Leads (.become d) d []
  | print (p : Payload) (before after : Dot) : Leads (.print p before after) after []
  | read (byCode : Bool) (after : Int → Dot) (n : Int) : Leads (.read byCode after) (after n) []
  | branch (new : List Dot) (d : Dot) : Leads (.branch new d) d new

/-- A deed that needs no second dot, and after which `P` holds of the dot and
    of those that set out. -/
def Deed.Ensures (P : Dot → List Dot → Prop) : Deed → Prop
  | .become d => P d []
  | .print _ _ after => P after []
  | .read _ after => ∀ n, P (after n) []
  | .branch new d => P d new
  | .meet _ => False
  | .stop _ _ => True

theorem Deed.Ensures.leads {P : Dot → List Dot → Prop} {deed : Deed} {d : Dot} {new : List Dot}
    (h : deed.Ensures P) (hl : deed.Leads d new) : P d new := by
  cases hl with
  | become => exact h
  | print => exact h
  | read _ _ n => exact h n
  | branch => exact h

theorem Deed.Ensures.mono {P Q : Dot → List Dot → Prop} {deed : Deed} (h : deed.Ensures P)
    (hPQ : ∀ d new, P d new → Q d new) : deed.Ensures Q := by
  cases deed with
  | become d => exact hPQ d [] h
  | print _ _ after => exact hPQ after [] h
  | read _ after => exact fun n => hPQ (after n) [] (h n)
  | branch new d => exact hPQ d new h
  | meet => exact h
  | stop => trivial

theorem Deed.Ensures.ne_meet {P : Dot → List Dot → Prop} {deed : Deed} (h : deed.Ensures P)
    (m : Meeting) : deed ≠ .meet m := by
  rintro rfl
  exact h

/-- The deed prints the texts `out`, one after the other, and makes the dot `d`. -/
inductive Deed.Prints : Deed → List String → Dot → Prop where
  | become (d : Dot) : Prints (.become d) [] d
  | print (text : String) (before after : Dot) :
      Prints (.print (.text text) before after) [text] after

theorem Deed.Prints.leads {deed : Deed} {out : List String} {d d' : Dot} {new : List Dot}
    (h : deed.Prints out d) (hl : deed.Leads d' new) : d' = d := by
  cases h <;> cases hl <;> rfl

namespace Dot

/-- The dots that set out in the turn of a dot: those of a crossing that it
    travels over. -/
def copies (w : World) (d : Dot) : List Dot :=
  if d.phase = .travel ∧ w.hasGlyph d.pos '*' then d.branches w else []

/-- What a deed makes of a dot that waits for nobody. -/
structure GoesOn (w : World) (c : Cell) (d d' : Dot) (new : List Dot) : Prop where
  dir : d'.dir = d.dir ∨ d'.dir = turn c d.dir
  phase : ∀ m, d'.phase ≠ .meet m
  new : new = d.copies w

section deeds
variable {w : World} {c : Cell} {d : Dot}

theorem copies_of_phase_ne (h : d.phase ≠ .travel) : d.copies w = [] := by
  unfold copies
  rw [if_neg]
  rintro ⟨hp, -⟩
  exact h hp

theorem copies_of_glyph_ne (hc : w.cell? d.pos = some c) (h : c.glyph ≠ '*') :
    d.copies w = [] := by
  unfold copies World.hasGlyph
  rw [hc, if_neg]
  rintro ⟨-, hg⟩
  simp at hg
  exact h hg

theorem copies_of_crossing (hp : d.phase = .travel) (hc : w.cell? d.pos = some c)
    (h : c.glyph = '*') : d.copies w = d.branches w := by
  unfold copies World.hasGlyph
  rw [hc, if_pos]
  exact ⟨hp, by simp [h]⟩

/-- The copies that set out in one turn have different directions. -/
theorem nodup_dirs_copies (w : World) (d : Dot) : ((d.copies w).map dir).Nodup := by
  unfold copies
  split
  · unfold branches
    rw [List.map_map, show dir ∘ d.branch = fun p => p from rfl, List.map_id']
    exact (by decide : Pos.directions.Nodup).filter _
  · exact .nil

theorem travelDeed_goesOn (hp : d.phase = .travel) (hc : w.cell? d.pos = some c) :
    (d.travelDeed w c).Ensures (d.GoesOn w c) := by
  unfold travelDeed
  split
  · next hturn =>
    have hne : c.glyph ≠ '*' := by
      intro h
      simp [isTurn, h] at hturn
    refine ⟨.inr rfl, by simp [hp], ?_⟩
    exact (copies_of_glyph_ne hc hne).symm
  · split
    · next hstar =>
      refine ⟨.inl rfl, by simp [hp], ?_⟩
      exact (copies_of_crossing hp hc (by simpa using hstar)).symm
    · next hstar =>
      have hnone := copies_of_glyph_ne (d := d) hc (by simpa using hstar)
      split
      · next v _ =>
        split
        · unfold leave
          split
          · split <;> trivial
          · exact ⟨.inl rfl, by simp [hp], hnone.symm⟩
        · unfold warpThrough
          dsimp only
          split
          · trivial
          · trivial
          · refine ⟨.inl ?_, ?_, hnone.symm⟩
            · split <;> rfl
            · split <;> simp [hp]
      · exact ⟨.inl rfl, by simp [hp], hnone.symm⟩

/-- Whoever travels keeps both numbers, and travels on. -/
theorem travelDeed_keeps :
    (d.travelDeed w c).Ensures fun d' _ =>
      d'.value = d.value ∧ d'.id = d.id ∧ d'.phase = d.phase := by
  unfold travelDeed
  split
  · exact ⟨rfl, rfl, rfl⟩
  · split
    · exact ⟨rfl, rfl, rfl⟩
    · split
      · split
        · unfold leave
          split
          · split <;> trivial
          · exact ⟨rfl, rfl, rfl⟩
        · unfold warpThrough
          dsimp only
          split
          · trivial
          · trivial
          -- What is remembered makes no difference to the rest of the dot.
          · refine ⟨?_, ?_, ?_⟩ <;> simp only [move] <;> split <;> rfl
      · exact ⟨rfl, rfl, rfl⟩

theorem entryDeed_goesOn {e : Entry} {a : Number} {set : Dot → Number → Dot}
    {phase : Entry → Phase} (hp : d.phase = phase e)
    (hset : ∀ n, (set d n).dir = d.dir ∧ (set d n).phase = d.phase)
    (hmeet : ∀ e m, phase e ≠ .meet m) (htravel : phase e ≠ .travel) :
    (d.entryDeed c e a set phase).Ensures (d.GoesOn w c) := by
  have hnone : d.copies w = [] := copies_of_phase_ne (by rw [hp]; exact htravel)
  unfold entryDeed
  split
  · exact ⟨.inl rfl, hmeet _, hnone.symm⟩
  · split
    · exact ⟨.inl (hset _).1, hmeet _, hnone.symm⟩
    · split
      · exact ⟨.inl rfl, hmeet _, hnone.symm⟩
      · split
        · intro n
          refine ⟨.inl (hset _).1, ?_, hnone.symm⟩
          intro m
          rw [move_phase, (hset _).2, hp]
          exact hmeet e m
        · refine ⟨.inl rfl, ?_, hnone.symm⟩
          intro m
          rw [move_phase, hp]
          exact hmeet e m

theorem printDeed_goesOn {p : Printing} (hp : d.phase = .print p) :
    (d.printDeed c p).Ensures (d.GoesOn w c) := by
  have hnone : d.copies w = [] := copies_of_phase_ne (by simp [hp])
  have hnumber : ∀ a, (d.printNumber p a).Ensures (d.GoesOn w c) := by
    intro a
    unfold printNumber
    split
    · exact ⟨.inl rfl, by simp, hnone.symm⟩
    · trivial
  unfold printDeed
  split
  · exact ⟨.inl rfl, by simp, hnone.symm⟩
  · split
    · exact ⟨.inl rfl, by simp, hnone.symm⟩
    · split
      · exact ⟨.inl rfl, by simp, hnone.symm⟩
      · split
        · exact hnumber d.value
        · split
          · exact hnumber d.id
          · exact ⟨.inl rfl, by simp [hp], hnone.symm⟩

theorem quoteDeed_goesOn {q : Quoting} (hp : d.phase = .quote q) :
    (d.quoteDeed c q).Ensures (d.GoesOn w c) := by
  have hnone : d.copies w = [] := copies_of_phase_ne (by simp [hp])
  unfold quoteDeed
  split
  · exact ⟨.inl rfl, by simp, hnone.symm⟩
  · split
    · unfold doubleDeed
      split
      · exact ⟨.inl rfl, by simp, hnone.symm⟩
      · exact ⟨.inl rfl, by simp, hnone.symm⟩
    · unfold singleDeed
      split
      · dsimp only
        split
        · exact ⟨.inl rfl, by simp, hnone.symm⟩
        · exact ⟨.inl rfl, by simp, hnone.symm⟩
      · exact ⟨.inl rfl, by simp [hp], hnone.symm⟩

/-! Taking up numbers and printing touch the place and the phase of a dot, and the
    number that is taken up.  `f` is anything about a dot that depends on neither. -/

section keeps
variable {α : Type} {f : Dot → α}
  (hf : ∀ (x : Dot) (p : Pos) (q : Phase), f { x with pos := p, phase := q } = f x)
include hf

theorem move_keeps (x : Dot) : f x.move = f x := hf x (x.pos + x.dir) x.phase

theorem entryDeed_keeps {e : Entry} {a : Number} {set : Dot → Number → Dot}
    {phase : Entry → Phase} (hset : ∀ n, f (set d n) = f d) :
    (d.entryDeed c e a set phase).Ensures fun d' _ => f d' = f d := by
  have hphase : ∀ (x : Dot) (q : Phase), f { x with phase := q }.move = f x := by
    intro x q
    rw [move_keeps hf]
    exact hf x x.pos q
  unfold entryDeed
  split
  · exact hphase d _
  · split
    · exact (hphase _ _).trans (hset _)
    · split
      · exact hphase d _
      · split
        · exact fun n => (move_keeps hf _).trans (hset _)
        · exact move_keeps hf d

theorem printDeed_keeps {p : Printing} :
    (d.printDeed c p).Ensures fun d' _ => f d' = f d := by
  have hphase : ∀ q : Phase, f { d with phase := q }.move = f d := by
    intro q
    rw [move_keeps hf]
    exact hf d d.pos q
  have hnumber : ∀ a, (d.printNumber p a).Ensures fun d' _ => f d' = f d := by
    intro a
    unfold printNumber
    split
    · exact hphase _
    · trivial
  unfold printDeed
  repeat' split
  · exact hphase _
  · exact hphase _
  · exact hphase _
  · exact hnumber d.value
  · exact hnumber d.id
  · exact move_keeps hf d

theorem quoteDeed_keeps {q : Quoting} :
    (d.quoteDeed c q).Ensures fun d' _ => f d' = f d := by
  have hphase : ∀ q : Phase, f { d with phase := q }.move = f d := by
    intro q
    rw [move_keeps hf]
    exact hf d d.pos q
  unfold quoteDeed
  split
  · exact hphase _
  · split
    · unfold doubleDeed
      split
      · exact hphase _
      · exact hphase _
    · unfold singleDeed
      split
      · dsimp only
        split
        · exact hphase _
        · exact hphase _
      · exact move_keeps hf d

end keeps

/-- A dot that waits for nobody goes on. -/
theorem deed_goesOn (hp : ∀ m, d.phase ≠ .meet m) (hc : w.cell? d.pos = some c) :
    (d.deed w c).Ensures (d.GoesOn w c) := by
  unfold deed
  cases hphase : d.phase with
  | blank => trivial
  | travel => exact travelDeed_goesOn hphase hc
  | value e => exact entryDeed_goesOn hphase (fun _ => ⟨rfl, rfl⟩) (by simp) (by simp)
  | ident e => exact entryDeed_goesOn hphase (fun _ => ⟨rfl, rfl⟩) (by simp) (by simp)
  | print p => exact printDeed_goesOn hphase
  | quote q => exact quoteDeed_goesOn hphase
  | meet m => exact absurd hphase (hp m)
  | dead => exact ⟨.inl rfl, by simp [hphase], (copies_of_phase_ne (by simp [hphase])).symm⟩
  | exit => trivial

/-- The deed of a dead dot is to stay as it is. -/
theorem eq_of_dead_leads {d' : Dot} {new : List Dot} (h : (d.deed w c).Leads d' new)
    (hdead : d.phase = .dead) : d' = d := by
  have hsame : d.deed w c = .become d := by simp [deed, hdead]
  rw [hsame] at h
  cases h
  rfl

end deeds

end Dot

end DotPaths
