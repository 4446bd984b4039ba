import DotPaths.Proofs.RoundEnd
import Mathlib.Data.Int.Bitwise
import Mathlib.Data.Int.Order.Basic

/-! # Operators that tell a relation

    Nine operators are there to tell a relation of two integers: six compare them,
    and `&`, `o` and `x` ask whether both, one or exactly one of them is not zero.
    The answer should be one if the relation holds and zero if not.

    The comparisons do answer like this.  The other three operate on the bits of
    the two integers, so their answers can be anything.  The main statement says
    exactly for which integers the answer is right, and for which a switch that
    is given the answer turns a dot aside exactly if the relation holds.
-/

namespace DotPaths

namespace Integer

/-! ## Bits

    The bits of a negative integer are those of its magnitude, all turned over. -/

theorem magnitude_negSucc (n : Nat) : magnitude (Int.negSucc n) = n := by
  unfold magnitude
  rw [if_pos (Int.negSucc_lt_zero n)]
  omega

theorem testBit_eq_magnitude (a : Int) (k : Nat) :
    a.testBit k = ((magnitude a).testBit k ^^ decide (a < 0)) := by
  cases a with
  | ofNat m => exact (Bool.xor_false _).symm
  | negSucc m =>
    rw [magnitude_negSucc, decide_eq_true (Int.negSucc_lt_zero m)]
    exact (Bool.xor_true _).symm

theorem testBit_ofMagnitude (negative : Bool) (n k : Nat) :
    (ofMagnitude negative n).testBit k = (n.testBit k ^^ negative) := by
  cases negative with
  | false => exact (Bool.xor_false _).symm
  | true =>
    have hneg : ofMagnitude true n = Int.negSucc n := by
      show -(n : Int) - 1 = Int.negSucc n
      omega
    rw [hneg]
    exact (Bool.xor_true _).symm

theorem testBit_without (a b k : Nat) :
    (without a b).testBit k = (a.testBit k && !b.testBit k) := by
  rw [without, Nat.testBit_xor, Nat.testBit_and]
  cases a.testBit k <;> cases b.testBit k <;> rfl

theorem testBit_bitAnd (a b : Int) (k : Nat) :
    (bitAnd a b).testBit k = (a.testBit k && b.testBit k) := by
  rw [testBit_eq_magnitude a, testBit_eq_magnitude b]
  unfold bitAnd
  cases decide (a < 0) <;> cases decide (b < 0) <;>
    simp [testBit_ofMagnitude, testBit_without, Bool.and_comm]

theorem testBit_bitOr (a b : Int) (k : Nat) :
    (bitOr a b).testBit k = (a.testBit k || b.testBit k) := by
  rw [testBit_eq_magnitude a, testBit_eq_magnitude b]
  unfold bitOr
  cases decide (a < 0) <;> cases decide (b < 0) <;>
    simp [testBit_ofMagnitude, testBit_without, Bool.or_comm]

theorem testBit_bitXor (a b : Int) (k : Nat) :
    (bitXor a b).testBit k = (a.testBit k ^^ b.testBit k) := by
  rw [testBit_eq_magnitude a, testBit_eq_magnitude b]
  unfold bitXor
  rw [testBit_ofMagnitude, Nat.testBit_xor]
  cases decide (a < 0) <;> cases decide (b < 0) <;> simp

/-- An integer is known by its bits. -/
theorem eq_of_testBit {a b : Int} (h : ∀ k, a.testBit k = b.testBit k) : a = b := by
  -- High up there is nothing but the sign.
  have hsign : ∀ m n : Nat, ¬ ∀ k, m.testBit k = !n.testBit k := by
    intro m n hbits
    have hm : m.testBit (m + n) = false :=
      Nat.testBit_lt_two_pow (Nat.lt_of_le_of_lt (Nat.le_add_right m n) Nat.lt_two_pow_self)
    have hn : n.testBit (m + n) = false :=
      Nat.testBit_lt_two_pow (Nat.lt_of_le_of_lt (Nat.le_add_left n m) Nat.lt_two_pow_self)
    have hhigh := hbits (m + n)
    rw [hm, hn] at hhigh
    cases hhigh
  cases a with
  | ofNat m =>
    cases b with
    | ofNat n => exact congrArg Int.ofNat (Nat.eq_of_testBit_eq h)
    | negSucc n => exact absurd h (hsign m n)
  | negSucc m =>
    cases b with
    | ofNat n => exact absurd (fun k => (h k).symm) (hsign n m)
    | negSucc n => exact congrArg Int.negSucc (Nat.eq_of_testBit_eq fun k => Bool.not_inj (h k))

@[simp] theorem testBit_zero (k : Nat) : (0 : Int).testBit k = false := Nat.zero_testBit k

@[simp] theorem testBit_one (k : Nat) : (1 : Int).testBit k = decide (k = 0) := by
  cases k with
  | zero => rfl
  | succ k =>
    show (1 : Nat).testBit (k + 1) = false
    rw [Nat.testBit_succ]
    exact Nat.zero_testBit k

theorem eq_zero_iff {a : Int} : a = 0 ↔ ∀ k, a.testBit k = false := by
  constructor
  · rintro rfl k
    exact testBit_zero k
  · intro h
    exact eq_of_testBit fun k => (h k).trans (testBit_zero k).symm

theorem eq_one_iff {a : Int} : a = 1 ↔ ∀ k, a.testBit k = decide (k = 0) := by
  constructor
  · rintro rfl k
    exact testBit_one k
  · intro h
    exact eq_of_testBit fun k => (h k).trans (testBit_one k).symm

/-- Without any bit but the lowest, an integer is zero or one. -/
theorem eq_zero_or_one {a : Int} (h : ∀ k, k ≠ 0 → a.testBit k = false) : a = 0 ∨ a = 1 := by
  cases hlow : a.testBit 0 with
  | false =>
    refine .inl (eq_zero_iff.mpr fun k => ?_)
    by_cases hk : k = 0
    · rw [hk, hlow]
    · exact h k hk
  | true =>
    refine .inr (eq_one_iff.mpr fun k => ?_)
    by_cases hk : k = 0
    · rw [hk, hlow]
      rfl
    · rw [h k hk, decide_eq_false hk]

/-! ## Operations on bits as answers -/

/-- The two integers share the bit `k`. -/
def Share (a b : Int) (k : Nat) : Prop := a.testBit k = true ∧ b.testBit k = true

theorem bitAnd_ne_zero_iff {a b : Int} : bitAnd a b ≠ 0 ↔ ∃ k, Share a b k := by
  simp only [ne_eq, eq_zero_iff, testBit_bitAnd, Share, not_forall, Bool.not_eq_false,
    Bool.and_eq_true]

theorem bitAnd_eq_one_iff {a b : Int} : bitAnd a b = 1 ↔ ∀ k, Share a b k ↔ k = 0 := by
  rw [eq_one_iff]
  apply forall_congr'
  intro k
  rw [testBit_bitAnd, Share, ← Bool.and_eq_true, Bool.eq_iff_iff, decide_eq_true_iff]

theorem bitAnd_zero_left (b : Int) : bitAnd 0 b = 0 :=
  eq_zero_iff.mpr fun k => by rw [testBit_bitAnd, testBit_zero, Bool.false_and]

theorem bitAnd_zero_right (a : Int) : bitAnd a 0 = 0 :=
  eq_zero_iff.mpr fun k => by rw [testBit_bitAnd, testBit_zero, Bool.and_false]

theorem bitOr_eq_zero_iff {a b : Int} : bitOr a b = 0 ↔ a = 0 ∧ b = 0 := by
  simp only [eq_zero_iff, testBit_bitOr, Bool.or_eq_false_iff, forall_and]

theorem bitOr_eq_one_iff {a b : Int} :
    bitOr a b = 1 ↔ (a = 0 ∨ a = 1) ∧ (b = 0 ∨ b = 1) ∧ (a ≠ 0 ∨ b ≠ 0) := by
  constructor
  · intro h
    have hbits := eq_one_iff.mp h
    have hhigh : ∀ k, k ≠ 0 → a.testBit k = false ∧ b.testBit k = false := by
      intro k hk
      have hk' := hbits k
      rw [testBit_bitOr, decide_eq_false hk] at hk'
      exact Bool.or_eq_false_iff.mp hk'
    refine ⟨eq_zero_or_one fun k hk => (hhigh k hk).1,
      eq_zero_or_one fun k hk => (hhigh k hk).2, ?_⟩
    by_contra hzero
    have hboth : a = 0 ∧ b = 0 := by simpa using hzero
    rw [bitOr_eq_zero_iff.mpr hboth] at h
    cases h
  · rintro ⟨rfl | rfl, rfl | rfl, h⟩
    · simp at h
    · rfl
    · rfl
    · rfl

theorem bitXor_eq_zero_iff {a b : Int} : bitXor a b = 0 ↔ a = b := by
  rw [eq_zero_iff]
  constructor
  · intro h
    apply eq_of_testBit
    intro k
    have hk := h k
    rw [testBit_bitXor] at hk
    simpa using hk
  · rintro rfl k
    rw [testBit_bitXor, Bool.xor_self]

theorem bitXor_zero_left (b : Int) : bitXor 0 b = b :=
  eq_of_testBit fun k => by rw [testBit_bitXor, testBit_zero, Bool.false_xor]

theorem bitXor_zero_right (a : Int) : bitXor a 0 = a :=
  eq_of_testBit fun k => by rw [testBit_bitXor, testBit_zero, Bool.xor_false]

end Integer

/-! ## What an operator is to tell -/

/-- The relation of two integers that an operator is to tell, if it is to tell one. -/
def relation? : Char → Option (Int → Int → Prop)
  | '&' => some fun x y => x ≠ 0 ∧ y ≠ 0
  | 'o' => some fun x y => x ≠ 0 ∨ y ≠ 0
  | 'x' => some fun x y => (x ≠ 0 ∧ y = 0) ∨ (x = 0 ∧ y ≠ 0)
  | '!' => some fun x y => x ≠ y
  | '=' => some fun x y => x = y
  | '>' => some fun x y => x > y
  | 'G' => some fun x y => x ≥ y
  | '<' => some fun x y => x < y
  | 'L' => some fun x y => x ≤ y
  | _ => none

/-- The integer tells whether `P` holds: it is one if so, and zero if not. -/
def Tells (r : Int) (P : Prop) : Prop := (P ∧ r = 1) ∨ (¬ P ∧ r = 0)

/-- The integers of which an operator tells its relation.  A conjunction of two that
    are not zero is right if the lowest bit is the only one that they share. -/
def GivesTruthValue (glyph : Char) (x y : Int) : Prop :=
  match glyph with
  | '&' => x = 0 ∨ y = 0 ∨ ∀ k, Integer.Share x y k ↔ k = 0
  | 'o' => (x = 0 ∨ x = 1) ∧ (y = 0 ∨ y = 1)
  | 'x' => x = y ∨ (x = 0 ∧ y = 1) ∨ (x = 1 ∧ y = 0)
  | _ => True

/-- The integers for which at least a switch can make use of the answer: it is zero
    exactly if the relation does not hold. -/
def SteersSwitch (glyph : Char) (x y : Int) : Prop :=
  match glyph with
  | '&' => x = 0 ∨ y = 0 ∨ ∃ k, Integer.Share x y k
  | 'x' => x = 0 ∨ y = 0 ∨ x = y
  | _ => True

/-- The answer `r` of an operator for two integers with this relation. -/
structure Answers (glyph : Char) (R : Int → Int → Prop) (x y r : Int) : Prop where
  tells_iff : Tells r (R x y) ↔ GivesTruthValue glyph x y
  steers_iff : (r ≠ 0 ↔ R x y) ↔ SteersSwitch glyph x y

namespace Answers

open Integer

theorem conjunction (x y : Int) :
    Answers '&' (fun x y => x ≠ 0 ∧ y ≠ 0) x y (bitAnd x y) := by
  have hleft : x = 0 → bitAnd x y = 0 := by
    rintro rfl
    exact bitAnd_zero_left y
  have hright : y = 0 → bitAnd x y = 0 := by
    rintro rfl
    exact bitAnd_zero_right x
  have hone := bitAnd_eq_one_iff (a := x) (b := y)
  have hshare := bitAnd_ne_zero_iff (a := x) (b := y)
  generalize bitAnd x y = r at hleft hright hone hshare ⊢
  constructor
  · show Tells r (x ≠ 0 ∧ y ≠ 0) ↔ x = 0 ∨ y = 0 ∨ ∀ k, Share x y k ↔ k = 0
    rw [← hone]
    unfold Tells
    omega
  · show (r ≠ 0 ↔ x ≠ 0 ∧ y ≠ 0) ↔ x = 0 ∨ y = 0 ∨ ∃ k, Share x y k
    rw [← hshare]
    omega

theorem disjunction (x y : Int) :
    Answers 'o' (fun x y => x ≠ 0 ∨ y ≠ 0) x y (bitOr x y) := by
  have hzero := bitOr_eq_zero_iff (a := x) (b := y)
  have hone := bitOr_eq_one_iff (a := x) (b := y)
  generalize bitOr x y = r at hzero hone ⊢
  constructor
  · show Tells r (x ≠ 0 ∨ y ≠ 0) ↔ (x = 0 ∨ x = 1) ∧ (y = 0 ∨ y = 1)
    unfold Tells
    omega
  · show (r ≠ 0 ↔ x ≠ 0 ∨ y ≠ 0) ↔ True
    rw [iff_true]
    omega

theorem exclusion (x y : Int) :
    Answers 'x' (fun x y => (x ≠ 0 ∧ y = 0) ∨ (x = 0 ∧ y ≠ 0)) x y (bitXor x y) := by
  have hleft : x = 0 → bitXor x y = y := by
    rintro rfl
    exact bitXor_zero_left y
  have hright : y = 0 → bitXor x y = x := by
    rintro rfl
    exact bitXor_zero_right x
  have hzero := bitXor_eq_zero_iff (a := x) (b := y)
  generalize bitXor x y = r at hleft hright hzero ⊢
  constructor
  · show Tells r ((x ≠ 0 ∧ y = 0) ∨ (x = 0 ∧ y ≠ 0)) ↔
      x = y ∨ (x = 0 ∧ y = 1) ∨ (x = 1 ∧ y = 0)
    unfold Tells
    omega
  · show (r ≠ 0 ↔ (x ≠ 0 ∧ y = 0) ∨ (x = 0 ∧ y ≠ 0)) ↔ x = 0 ∨ y = 0 ∨ x = y
    omega

/-- A truth counts as one or zero. -/
theorem comparison {glyph : Char} {R : Int → Int → Prop} {x y : Int} {b : Bool}
    (hb : b = true ↔ R x y) (htruth : GivesTruthValue glyph x y)
    (hsteers : SteersSwitch glyph x y) :
    Answers glyph R x y (if b then 1 else 0) := by
  constructor
  · refine ⟨fun _ => htruth, fun _ => ?_⟩
    rw [Tells, ← hb]
    cases b with
    | true => exact .inl ⟨rfl, rfl⟩
    | false => exact .inr ⟨Bool.false_ne_true, rfl⟩
  · refine ⟨fun _ => hsteers, fun _ => ?_⟩
    rw [← hb]
    cases b with
    | true => simp
    | false => simp

end Answers

/-- Of two integers, each of the nine operators gives an integer as its answer. -/
theorem calculate_answers {glyph : Char} {R : Int → Int → Prop} (hR : relation? glyph = some R)
    (x y : Int) :
    ∃ a r, Operator.calculate (String.singleton glyph) (.int x) (.int y) = .ok a ∧
      a.toNumber = .int r ∧ Answers glyph R x y r := by
  unfold relation? at hR
  split at hR <;> cases hR
  · exact ⟨_, _, rfl, rfl, .conjunction x y⟩
  · exact ⟨_, _, rfl, rfl, .disjunction x y⟩
  · exact ⟨_, _, rfl, rfl, .exclusion x y⟩
  · refine ⟨_, _, rfl, rfl, .comparison ?_ trivial trivial⟩
    show (!(y == x)) = true ↔ x ≠ y
    rw [Bool.not_eq_true', beq_eq_false_iff_ne, ne_comm]
  · refine ⟨_, _, rfl, rfl, .comparison ?_ trivial trivial⟩
    show (y == x) = true ↔ x = y
    rw [beq_iff_eq, eq_comm]
  · refine ⟨_, _, rfl, rfl, .comparison ?_ trivial trivial⟩
    show (compare x y == .gt) = true ↔ x > y
    rw [beq_iff_eq, compare_gt_iff_gt]
  · refine ⟨_, _, rfl, rfl, .comparison ?_ trivial trivial⟩
    show (compare x y != .lt) = true ↔ x ≥ y
    rw [bne_iff_ne, compare_ge_iff_ge]
  · refine ⟨_, _, rfl, rfl, .comparison ?_ trivial trivial⟩
    show (compare x y == .lt) = true ↔ x < y
    rw [beq_iff_eq, compare_lt_iff_lt]
  · refine ⟨_, _, rfl, rfl, .comparison ?_ trivial trivial⟩
    show (compare x y != .gt) = true ↔ x ≤ y
    rw [bne_iff_ne, compare_le_iff_le]

/-! ## Meetings -/

/-- In the scene `s` it is up to the dot `d` with number `i` to meet the dot `o` with
    number `j`: of those that wait on its cell, it is the master that has waited
    longest, and the other is the companion that has waited longest. -/
structure Due (s : Scene) (i j : Nat) (d o : Dot) (m n : Meeting) : Prop where
  master_here : s.dots[i]? = some d
  master_waits : d.phase = .meet m
  is_master : m.master = true
  other_here : s.dots[j]? = some o
  other_waits : o.phase = .meet n
  oldest_master : Meeting.oldest? d.pos true s.dots = some i
  oldest_other : Meeting.oldest? d.pos false s.dots = some j

/-- What is due is done, if there is an outcome. -/
theorem Due.performed {w : World} {s : Scene} {i j : Nat} {d o r : Dot} {m n : Meeting} {c : Cell}
    (h : Due s i j d o m n) (hout : m.outcome c d (o.stake n) = .ok r) :
    ∃ t, Turn.perform c i (d.deed w c) s = .ok () t ∧
      t.dots[i]? = some { r with phase := .travel }.move := by
  have hdeed : d.deed w c = .meet m := by simp [Dot.deed, h.master_waits]
  have hi := (List.getElem?_eq_some_iff.mp h.master_here).1
  rw [← Dot.offer_of_meet h.other_waits] at hout
  rw [hdeed]
  refine ⟨_, Turn.perform_meet h.master_here h.is_master h.oldest_master h.oldest_other
    h.other_here hout, ?_⟩
  exact List.getElem?_set_self (by simpa using hi)

/-- What comes out of a meeting at a cell with one of the nine operators, if both dots
    take part with integers: the meeting takes place, and the master goes on with an
    integer.  It tells the relation exactly for the integers that are `GivesTruthValue`.  And
    when a dot brings it to a switch, the dot that waits there is turned upwards if
    the relation holds and goes straight on if not, exactly for those that are
    `SteersSwitch`. -/
theorem operators_tell_iff {w : World} {s : Scene} {i j : Nat} {d o : Dot} {m n : Meeting}
    {c : Cell} {R : Int → Int → Prop} {x y : Int} (hdue : Due s i j d o m n)
    (hoperator : c.kind.isOperator = true) (hpurpose : m.purpose = .square ∨ m.purpose = .curly)
    (hR : relation? c.glyph = some R) (hx : d.stake m = .int x) (hy : o.stake n = .int y) :
    ∃ t d' r, Turn.perform c i (d.deed w c) s = .ok () t ∧ t.dots[i]? = some d' ∧
      d'.stake m = .int r ∧ (Tells r (R x y) ↔ GivesTruthValue c.glyph x y) ∧
      ∀ c₂ {s₂ i₂ j₂ d₂ o₂ m₂ n₂}, Due s₂ i₂ j₂ d₂ o₂ m₂ n₂ → m₂.purpose = .switch →
        d₂.dir.isHorizontal = true → o₂.stake n₂ = d'.stake m →
        ∃ t₂ d₂', Turn.perform c₂ i₂ (d₂.deed w c₂) s₂ = .ok () t₂ ∧ t₂.dots[i₂]? = some d₂' ∧
          ((d₂'.dir = .up ↔ R x y) ↔ SteersSwitch c.glyph x y) := by
  obtain ⟨a, r, ha, hr, hanswers⟩ := calculate_answers hR x y
  have hout : m.outcome c d (o.stake n) = .ok (d.setStake m (.int r)) := by
    rw [← hr, hy]
    rcases hpurpose with hp | hp <;> simp [Meeting.outcome, hp, hoperator, hx, ha]
  obtain ⟨t, ht, hd'⟩ := hdue.performed (w := w) hout
  -- Operators take part with the value or the id of a dot, and the answer goes there.
  have hstake : { d.setStake m (.int r) with phase := .travel }.move.stake m = .int r := by
    unfold Dot.setStake Dot.stake
    cases m.onId <;> rfl
  refine ⟨t, _, r, ht, hd', hstake, hanswers.tells_iff, ?_⟩
  intro c₂ s₂ i₂ j₂ d₂ o₂ m₂ n₂ hdue₂ hswitch hside hfed
  -- A switch looks at the answer only to see whether it is zero.
  have hout₂ : m₂.outcome c₂ d₂ (o₂.stake n₂) =
      .ok (if r = 0 then d₂ else { d₂ with dir := .up }) := by
    rw [hfed, hstake]
    simp [Meeting.outcome, hswitch, Number.isZero]
  obtain ⟨t₂, ht₂, hd₂'⟩ := hdue₂.performed (w := w) hout₂
  refine ⟨t₂, _, ht₂, hd₂', ?_⟩
  rw [← hanswers.steers_iff]
  by_cases hzero : r = 0
  · -- A dot that comes from the side does not go upwards of its own.
    have hup : d₂.dir ≠ .up := by
      intro hup
      rw [hup] at hside
      cases hside
    simp [hzero, hup]
  · simp [hzero]

/-! ## Programs -/

/-- Two dots meet at an operator, one with the value `x` from the left and one with
    the value `y` from above, and the result is printed. -/
def meetAt (x op y : Char) : String :=
  "     .\n     |\n     #\n     " ++ String.singleton y ++ "\n.-#" ++ String.singleton x ++
    "\x7b" ++ String.singleton op ++ "\x7d-$#"

/-- The two dots of `meetAt '5' '&' '3'` when both have come to the operator. -/
def fiveAndThree : List Dot :=
  [{ pos := ⟨5, 4⟩, spawn := ⟨5, 0⟩, dir := .down, value := .int 3,
     phase := .meet { purpose := .curly, master := false, age := 1 } },
   { pos := ⟨5, 4⟩, spawn := ⟨0, 4⟩, dir := .right, value := .int 5,
     phase := .meet { purpose := .curly, master := true } }]

/-- Two dots at a switch, one from the left and one from below with the value 1. -/
def oneAtSwitch : Scene where
  dots :=
    [{ pos := ⟨9, 4⟩, spawn := ⟨0, 4⟩, dir := .up, value := .int 1,
       phase := .meet { purpose := .switch, master := false } },
     { pos := ⟨9, 4⟩, spawn := ⟨7, 4⟩, dir := .right,
       phase := .meet { purpose := .switch, master := true } }]
  console := .start .recorder 0 0 [] [] []

/-- The lowest bit is the only one that 5 and 3 share, so in the sixth tick the answer
    is one; and a switch that is given this answer turns a dot upwards. -/
theorem five_and_three_answer_one :
    ∃ m s c t s' u d', Machine.launchAlone (meetAt '5' '&' '3') = (m, none) ∧
      Machine.Ticks m.world s c t s' ∧ c.dots = fiveAndThree ∧
      Turn.perform ⟨'&', .operator (some .curly)⟩ 1
        (.meet { purpose := .curly, master := true }) c = .ok () u ∧
      u.dots[1]? = some d' ∧ d'.value = .int 1 ∧
      ∃ t₂ d₂', Turn.perform ⟨'~', .plain⟩ 1 (.meet { purpose := .switch, master := true })
          oneAtSwitch = .ok () t₂ ∧ t₂.dots[1]? = some d₂' ∧ d₂'.dir = .up := by
  have htrial : Machine.trial (meetAt '5' '&' '3') 5 (fun _ c _ => decide (c.dots = fiveAndThree)) =
      true := by
    decide +kernel
  obtain ⟨m, s, c, t, s', hm, hs, htick, hcheck⟩ := Machine.exists_of_trial htrial
  have hdots : c.dots = fiveAndThree := of_decide_eq_true hcheck
  have hdue : Due c 1 0 _ _ _ _ :=
    ⟨by rw [hdots]; rfl, rfl, rfl, by rw [hdots]; rfl, rfl, by rw [hdots]; decide,
      by rw [hdots]; decide⟩
  have hdue₂ : Due oneAtSwitch 1 0 _ _ _ _ := ⟨rfl, rfl, rfl, rfl, rfl, by decide, by decide⟩
  have htruth : GivesTruthValue '&' 5 3 := .inr (.inr (Integer.bitAnd_eq_one_iff.mp (by decide)))
  have hsteers : SteersSwitch '&' 5 3 := .inr (.inr ⟨0, rfl, rfl⟩)
  have hholds : (5 : Int) ≠ 0 ∧ (3 : Int) ≠ 0 := by decide
  obtain ⟨u, d', r, hu, hd', hr, htells, hswitch⟩ := operators_tell_iff (w := m.world)
    (c := ⟨'&', .operator (some .curly)⟩) hdue rfl (.inr rfl) rfl rfl rfl
  obtain rfl : r = 1 := by
    rcases htells.mpr htruth with ⟨-, hone⟩ | ⟨hnot, -⟩
    · exact hone
    · exact absurd hholds hnot
  obtain ⟨t₂, d₂', ht₂, hd₂', hup⟩ := hswitch ⟨'~', .plain⟩ hdue₂ rfl rfl hr.symm
  exact ⟨m, s, c, t, s', u, d', hm, htick, hdots, hu, hd', hr, t₂, d₂', ht₂, hd₂',
    (hup.mpr hsteers).mpr hholds⟩

/-- What a program prints by itself. -/
def printedBy (program : String) : List String :=
  (Machine.run 20 (Machine.launchAlone program).1).1.scene.console.outputs.reverse

/-- Neither 1 nor 2 is zero, but they share no bit. -/
theorem one_and_two_answer_bits :
    (∃ R, relation? '&' = some R ∧ R 1 2) ∧
      printedBy (meetAt '1' '&' '2') = ["0\n", "<finish>"] ∧
      (∃ R, relation? 'o' = some R ∧ R 1 2) ∧
      printedBy (meetAt '1' 'o' '2') = ["3\n", "<finish>"] ∧
      (∃ R, relation? 'x' = some R ∧ ¬ R 1 2) ∧
      printedBy (meetAt '1' 'x' '2') = ["3\n", "<finish>"] := by
  refine ⟨⟨_, rfl, by decide⟩, ?_, ⟨_, rfl, by decide⟩, ?_, ⟨_, rfl, by decide⟩, ?_⟩
  all_goals decide +kernel

end DotPaths
