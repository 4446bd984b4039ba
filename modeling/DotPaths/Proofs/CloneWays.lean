import DotPaths.Proofs.CloneLoop
import DotPaths.Proofs.Specimens

/-! # The ways through the clone library

    The ways of the two dots that go into the library `clone.dots` are computed at a
    specimen of it, with numbers that stand in for their values.  So each tick of the
    two loops is a tick of the dots in the library.

    - `ways_checked`: all ways have been computed.
    - `Counter.step`, `switch_step`: ticks of the dot that counts down, and of the dot
      that is cloned with those who wait at the switch.
    - `State.step`: a tick of all dots in the library.
-/

namespace DotPaths

open World Symbolic

/-- The text of the library. -/
def cloneText : List Char := Text.joinWith '\n' (Library.clone.map String.toList)

namespace Cloning

open Switch

/-- The library in a world of its own. -/
@[irreducible] def cloneWorld : World := specimenWorld "clone.dots"

/-- Its rows there. -/
abbrev cloneRows : Region := band 2 14

/-- Where dots come in and go out. -/
def exposedCell : Pos := ⟨1, 6⟩

def switchCell : Pos := ⟨3, 10⟩

/-- What the dot that is cloned remembers. -/
def originalMemory : List Pos := [⟨0, 1⟩]

/-- What the dot that counts down remembers. -/
def counterMemory : List Pos := [⟨0, 2⟩]

/-! ## Symbolic runs -/

/-- The dot that is cloned when it has come in. -/
def original (x : Int) : Dot :=
  { pos := exposedCell + .right, spawn := ⟨0, 0⟩, dir := .right, value := .int x,
    stack := originalMemory }

/-- One who goes out in this direction. -/
def leaving (x : Int) (dir : Pos) : Dot :=
  { pos := exposedCell, spawn := ⟨0, 0⟩, dir := dir, value := .int x, stack := originalMemory }

/-- The dot that counts down when it has come in. -/
def counter (v : Int) : Dot :=
  { pos := exposedCell + .left, spawn := ⟨0, 0⟩, dir := .left, value := .int v,
    stack := counterMemory }

/-- The dot that counts down where its loop begins. -/
def looping (v : Int) : Dot :=
  { pos := ⟨3, 13⟩, spawn := ⟨0, 0⟩, dir := .up, value := .int v, stack := counterMemory }

/-- The ways of the dot that is cloned, with the value 100. -/
def OriginalWay.way (y : OriginalWay) : Way where
  start := match y with
    | coming => original 100
    | rising => passed switchCell originalMemory 100 .up
    | falling => passed switchCell originalMemory 100 .right
  length := y.length
  comes k := match y with
    | falling => []
    | _ => if k = 2 then [master switchCell originalMemory (100, 0)] else []
  outs k := if k + 1 < y.length then [] else y.out.map (leaving 100)
  ends := []
  waits := []
  asked := []

/-- The ways of the dot that counts down, with the value 100 if it is not the last
    round. -/
def CounterWay.way (y : CounterWay) : Way where
  start := match y with
    | entering _ => counter 100
    | lap _ => looping 100
    | last => looping 1
  length := y.length
  comes k := match y with
    | entering _ => []
    | lap _ => if k = 2 then [other switchCell counterMemory (100, 0)] else []
    | last => (last.sends k).map fun v => other switchCell counterMemory (v, 0)
  outs _ := []
  ends := match y with
    | entering _ => [looping 100]
    | lap _ => [looping 99]
    | last => []
  waits := match y with
    | entering _ => []
    | _ => [⟨6, 12⟩, ⟨8, 11⟩]
  asked := match y with
    | entering _ => []
    | lap _ => [.digit 1, .operate '-' 100 1 99, .zero 99]
    | last => [.digit 1, .operate '-' 1 1 0, .zero 0]

theorem clone_specimen : Specimen cloneWorld cloneText exposedCell := by
  unfold cloneWorld
  exact specimen_of_isSpecimen (by decide +kernel)

theorem rowsOf_cloneText : (rowsOf cloneText).length = 14 := by decide +kernel

/-- At the switch dots leave their ways. -/
abbrev atSwitch (p : Pos) : Bool := p == switchCell

theorem ways_checked : ∀ y ∈ [OriginalWay.coming.way, OriginalWay.rising.way,
    OriginalWay.falling.way, (CounterWay.entering 0).way, (CounterWay.lap 0).way,
    CounterWay.last.way], y.isChecked cloneWorld cloneRows atSwitch = true := by
  decide +kernel

theorem original_ways_checked (y : OriginalWay) :
    y.way.isChecked cloneWorld cloneRows atSwitch = true := by
  apply ways_checked
  cases y <;> simp

theorem counter_ways_checked (y : CounterWay) :
    y.way.isChecked cloneWorld cloneRows atSwitch = true := by
  apply ways_checked
  -- The symbolic run is the same one for all numbers.
  have hentering : ∀ m, (CounterWay.entering m).way = (CounterWay.entering 0).way := fun _ => rfl
  have hlap : ∀ m, (CounterWay.lap m).way = (CounterWay.lap 0).way := fun _ => rfl
  cases y with
  | entering m => simp [hentering m]
  | lap m => simp [hlap m]
  | last => simp

theorem switch_clone : Switch cloneWorld cloneRows switchCell where
  cell := by
    have hany : (cloneWorld.cell? switchCell).any (·.glyph == '~') = true := by decide +kernel
    obtain ⟨c, hc, hglyph⟩ := (Option.any_eq_true _ _).mp hany
    exact ⟨c, hc, beq_iff_eq.mp hglyph⟩
  within := rfl

/-- It does not count for the dots that come in which values they have. -/
theorem original_lands (x : Int) :
    Turn.isLost cloneWorld (original x) = false ∧ (original x).isIn cloneRows = true :=
  Way.lands_of_start (original_ways_checked .coming) rfl rfl

theorem counter_lands (v : Int) :
    Turn.isLost cloneWorld (counter v) = false ∧ (counter v).isIn cloneRows = true :=
  Way.lands_of_start (counter_ways_checked (.entering 0)) rfl rfl

/-- Nor for the dot that goes on from the switch. -/
theorem passed_lands (x v : Int) :
    Turn.isLost cloneWorld (passed switchCell originalMemory x (onward v)) = false ∧
      (passed switchCell originalMemory x (onward v)).isIn cloneRows = true := by
  unfold onward
  split
  · exact Way.lands_of_start (original_ways_checked .falling) rfl rfl
  · exact Way.lands_of_start (original_ways_checked .rising) rfl rfl

/-! ## Numbers -/

/-- The numbers that the stand-ins stand for. -/
def standsFor (v n : Int) : Int := if n = 100 then v else if n = 99 then v - 1 else n

theorem standsFor_hundred (v : Int) : standsFor v 100 = v := rfl

theorem standsFor_ninety_nine (v : Int) : standsFor v 99 = v - 1 := rfl

/-- The numbers on a way of the dot that counts down. -/
def CounterWay.stands : CounterWay → Int → Int
  | entering m => standsFor ((m : Int) + 1)
  | lap m => standsFor ((m : Int) + 2)
  | last => id

theorem CounterWay.asked_holds (y : CounterWay) : ∀ q ∈ y.way.asked, q.Holds y.stands := by
  cases y with
  | entering m => exact fun q hq => nomatch hq
  | lap m =>
    have hdigit : (Query.digit 1).Holds (lap m).stands := by
      simp [Query.Holds, stands, standsFor]
    have hsub : (Query.operate '-' 100 1 99).Holds (lap m).stands :=
      Query.holds_sub (by simp [stands, standsFor])
    have hzero : (Query.zero 99).Holds (lap m).stands := by
      show standsFor _ 99 = 0 ↔ (99 : Int) = 0
      rw [standsFor_ninety_nine]
      omega
    intro q hq
    simp only [way, List.mem_cons, List.not_mem_nil, or_false] at hq
    rcases hq with rfl | rfl | rfl
    · exact hdigit
    · exact hsub
    · exact hzero
  | last =>
    have hdigit : (Query.digit 1).Holds last.stands := by simp [Query.Holds, stands]
    have hsub : (Query.operate '-' 1 1 0).Holds last.stands :=
      Query.holds_sub (by simp [stands])
    have hzero : (Query.zero 0).Holds last.stands := Iff.rfl
    intro q hq
    simp only [way, List.mem_cons, List.not_mem_nil, or_false] at hq
    rcases hq with rfl | rfl | rfl
    · exact hdigit
    · exact hsub
    · exact hzero

/-! ## The dots in the library -/

/-- Those who wait at the switch to be met. -/
abbrev waiter (q : Int × Nat) : Dot := other switchCell counterMemory q

namespace Original

/-- The dot that is cloned, and its copies. -/
def dots (x : Int) : Original → List Dot
  | on y k => y.way.dots cloneWorld cloneRows atSwitch (standsFor x) k.val
  | waiting age => [master switchCell originalMemory (x, age)]
  | _ => []

/-- It comes in. -/
def enters (x : Int) : Original → List Dot
  | away 0 => [original x]
  | _ => []

end Original

namespace Counter

def dots : Counter → List Dot
  | on y k => y.way.dots cloneWorld cloneRows atSwitch y.stands k.val
  | _ => []

def enters : Counter → List Dot
  | away 0 m => [counter ((m : Int) + 1)]
  | _ => []

end Counter

section steps
variable {ι : List Pos → Number → Prop}

/-! ## Counting down -/

theorem CounterWay.comes_eq (y : CounterWay) (k : Nat) :
    (y.way.comes k).map (Dot.valued y.stands) = (y.sends k).map fun v => waiter (v, 0) := by
  cases y with
  | entering m => rfl
  | lap m =>
    show (if k = 2 then _ else _ : List Dot).map _ = (if k = 2 then _ else _ : List Int).map _
    split <;> rfl
  | last =>
    show ((last.sends k).map _).map _ = _
    rw [List.map_map]
    rfl

theorem dots_round (m : Nat) : (CounterWay.round m).begin.dots = [looping ((m : Int) + 1)] := by
  cases m with
  | zero => rfl
  | succ m =>
    have hnumber : ((m + 1 : Nat) : Int) + 1 = (m : Int) + 2 := by omega
    show [looping (standsFor ((m : Int) + 2) 100)] = _
    rw [standsFor_hundred, hnumber]

/-- The end of a way is the beginning of the next one. -/
theorem CounterWay.dots_after (y : CounterWay) :
    y.after.dots = y.way.ends.map (Dot.valued y.stands) := by
  cases y with
  | entering m => exact dots_round m
  | lap m =>
    show (round m).begin.dots = [looping (standsFor ((m : Int) + 2) 99)]
    rw [dots_round, standsFor_ninety_nine]
    congr 2
    omega
  | last => rfl

theorem Counter.dots_next {y : CounterWay} {k : Fin y.length} :
    (Counter.on y k).next.dots =
      y.way.dots cloneWorld cloneRows atSwitch y.stands (k.val + 1) := by
  by_cases h : k.val + 1 < y.length
  · rw [next_on h]
    rfl
  · have hend : k.val + 1 = y.way.length := by
      show k.val + 1 = y.length
      omega
    rw [next_end h, hend, Way.dots_end (counter_ways_checked y) (by omega)]
    exact y.dots_after

theorem CounterWay.not_waits (y : CounterWay) : ∀ p ∈ y.way.waits, p ≠ switchCell := by
  have hboth : ∀ p ∈ [Pos.mk 6 12, ⟨8, 11⟩], p ≠ switchCell := by decide
  cases y with
  | entering m => exact fun p hp => nomatch hp
  | lap m => exact hboth
  | last => exact hboth

/-- A tick of the dot that counts down. -/
theorem Counter.step (hι : ∀ stack a, ι stack a → ι stack a.orZero) (c : Counter) :
    ∃ N, Step cloneWorld cloneRows ι c.dots N [] (· ≠ switchCell) ∧
      c.next.dots ++ c.sends.map (fun v => waiter (v, 0)) = N ++ c.enters := by
  cases c with
  | away k m =>
    refine ⟨[], .nil, ?_⟩
    cases k <;> rfl
  | finished => exact ⟨[], .nil, rfl⟩
  | on y k =>
    have hstep := Way.step (counter_ways_checked y) k.isLt hι y.asked_holds
    refine ⟨_, hstep.mono y.not_waits, ?_⟩
    rw [dots_next, y.comes_eq]
    exact (List.append_nil _).symm

/-! ## Cloning -/

variable {x : Int}

theorem Original.dots_next {y : OriginalWay} {k : Fin y.length} :
    ((Original.on y k).next []).dots x =
      y.way.dots cloneWorld cloneRows atSwitch (standsFor x) (k.val + 1) ++
        (y.way.comes k.val).map (Dot.valued (standsFor x)) := by
  by_cases h : k.val + 1 < y.length
  · have hcomes : y.way.comes k.val = [] := by
      cases y with
      | coming => exact if_neg (by simp only [OriginalWay.length] at h; omega)
      | rising => exact if_neg (by simp only [OriginalWay.length] at h; omega)
      | falling => rfl
    rw [next_on h, hcomes]
    exact (List.append_nil _).symm
  · have hk := k.isLt
    have hend : k.val + 1 = y.way.length := by
      show k.val + 1 = y.length
      omega
    rw [next_end h, hend, Way.dots_end (original_ways_checked y) (by omega)]
    cases y with
    | coming =>
      have hk : k.val = 2 := by simp only [OriginalWay.length] at h hk; omega
      rw [hk]
      rfl
    | rising =>
      have hk : k.val = 2 := by simp only [OriginalWay.length] at h hk; omega
      rw [hk]
      rfl
    | falling => rfl

theorem OriginalWay.outs_eq (y : OriginalWay) (k : Fin y.length) :
    (y.way.outs k.val).map (Dot.valued (standsFor x)) = (Original.on y k).out.map (leaving x) := by
  show (if k.val + 1 < y.length then _ else _ : List Dot).map _ =
    (if k.val + 1 < y.length then _ else _ : List Pos).map _
  split
  · rfl
  · rw [List.map_map]
    rfl

/-- A tick of the dot that is cloned while it is not at the switch. -/
theorem Original.step (hι : ∀ stack a, ι stack a → ι stack a.orZero) {o : Original}
    (hwaiting : o.isWaiting = false) :
    ∃ N, Step cloneWorld cloneRows ι (o.dots x) N (o.out.map (leaving x)) (fun _ => False) ∧
      (o.next []).dots x = N ++ o.enters x := by
  cases o with
  | away k =>
    refine ⟨[], .nil, ?_⟩
    cases k <;> rfl
  | gone => exact ⟨[], .nil, rfl⟩
  | waiting age => cases hwaiting
  | on y k =>
    have hstep := Way.step (ρ := standsFor x) (original_ways_checked y) k.isLt hι
      fun q hq => nomatch hq
    rw [y.outs_eq] at hstep
    refine ⟨_, hstep.mono (fun p hp => nomatch hp), ?_⟩
    rw [dots_next]
    exact (List.append_nil _).symm

/-- The way on from the switch. -/
theorem dots_onMeeting (v : Int) :
    (OriginalWay.onMeeting v).begin.dots x = [passed switchCell originalMemory x (onward v)] := by
  unfold OriginalWay.onMeeting onward
  split <;> rfl

/-- A tick of the dot that is cloned and of those who wait for it. -/
theorem switch_step (hι : ∀ stack a, ι stack a → ι stack a.orZero) {s : State} (h : Ordered s) :
    ∃ N, Step cloneWorld cloneRows ι (s.queue.map waiter ++ s.original.dots x) N
        (s.original.out.map (leaving x)) (· = switchCell) ∧
      (s.unmet.map older).map waiter ++ s.next.original.dots x = N ++ s.original.enters x := by
  rcases s.meeting_cases with ⟨age, q, horiginal, hqueue⟩ | ⟨hunmet, hwaiting, hnext⟩
  · rw [State.next_original_of_meeting horiginal hqueue, dots_onMeeting, horiginal, hqueue]
    refine ⟨_, switch_clone.step_meeting hι (hqueue ▸ h.spaced) (passed_lands x q.1), ?_⟩
    exact (List.append_nil _).symm
  · have hnext : s.next.original = s.original.next [] := hnext
    rw [hunmet, hnext]
    by_cases hwaits : s.original.isWaiting = true
    · -- There is nobody whom it might meet.
      rw [hwaiting hwaits]
      cases horiginal : s.original with
      | waiting age => exact ⟨_, switch_clone.step_alone hι, rfl⟩
      | _ => simp [horiginal, Original.isWaiting] at hwaits
    · obtain ⟨N, hstep, hN⟩ := Original.step (x := x) hι (by simpa using hwaits)
      have hqueue : Step cloneWorld cloneRows ι (s.queue.map waiter) _ [] (· = switchCell) :=
        switch_clone.step_waiting hι h.spaced
      refine ⟨_, (hqueue.append hstep fun _ _ hp => hp).mono ?_, ?_⟩
      · intro p hp
        exact hp.resolve_right id
      · rw [hN, List.append_assoc]

/-! ## All dots -/

namespace State

/-- All dots in the library. -/
def dots (x : Int) (s : State) : List Dot :=
  s.counter.dots ++ (s.queue.map waiter ++ s.original.dots x)

/-- Those who come in during the tick. -/
def enters (x : Int) (s : State) : List Dot := s.original.enters x ++ s.counter.enters

/-- A tick in the library. -/
theorem step (hι : ∀ stack a, ι stack a → ι stack a.orZero) {s : State} (h : Ordered s) :
    ∃ N W, Step cloneWorld cloneRows ι (s.dots x) N (s.original.out.map (leaving x)) W ∧
      (s.next.dots x).Perm (N ++ s.enters x) := by
  obtain ⟨N, hstep, hN⟩ := s.counter.step hι
  obtain ⟨N', hstep', hN'⟩ := switch_step (x := x) hι h
  refine ⟨_, _, hstep.append hstep' fun p hne heq => hne heq, ?_⟩
  have hsends : (s.counter.sends.map (·, 0)).map waiter =
      s.counter.sends.map fun v => waiter (v, 0) := by
    rw [List.map_map]
    rfl
  -- Those who come to the switch join the queue.
  have hjoin : (s.next.dots x).Perm ((s.counter.next.dots ++
      s.counter.sends.map fun v => waiter (v, 0)) ++
        ((s.unmet.map older).map waiter ++ s.next.original.dots x)) := by
    show (s.counter.next.dots ++ ((s.unmet.map older ++ s.counter.sends.map (·, 0)).map waiter ++
      s.next.original.dots x)).Perm _
    rw [List.map_append, hsends, List.append_assoc, List.append_assoc]
    exact (List.perm_append_comm_assoc _ _ _).append_left _
  rw [hN, hN'] at hjoin
  have hcome : (N ++ s.counter.enters ++ (N' ++ s.original.enters x)).Perm
      (N ++ N' ++ s.enters x) := by
    unfold enters
    rw [List.append_assoc, List.append_assoc, ← List.append_assoc N']
    exact List.perm_append_comm.append_left N
  exact hjoin.trans hcome

end State

end steps

end Cloning

end DotPaths
