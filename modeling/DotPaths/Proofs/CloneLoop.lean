import Mathlib.Logic.Function.Iterate
import DotPaths.Proofs.Switches

/-! # The two loops of the clone library

    The dot that is cloned waits at a switch.  Each time it meets somebody who brings
    a number it goes round one loop, where a copy of it goes out upwards, and is back at
    the switch; when it meets a zero it goes out downwards.  The numbers are brought by
    copies of a second dot, which goes round another loop, counting down.  The first
    loop is the faster one, but the first dot may come late, and then there is a queue.

    Here the two dots are followed tick by tick, without the cells under them.

    - `Ordered`: the numbers in the queue are those that come next, in their order, and
      those who bring them have come one well after the other.
    - `due_eq`: what is due is what goes out in a tick and what is due after it.
    - `remaining_next`: every tick is one of the ticks that remain.
-/

namespace DotPaths

namespace Cloning

open Switch

/-! ## The dot that is cloned -/

/-- The ways between the alias, the switch and the outside. -/
inductive OriginalWay
  | coming
  | rising
  | falling

namespace OriginalWay

/-- How many ticks the way takes. -/
def length : OriginalWay → Nat
  | coming => 3
  | rising => 3
  | falling => 6

/-- In which direction somebody goes out in the last tick. -/
def out : OriginalWay → List Pos
  | coming => []
  | rising => [.up]
  | falling => [.down]

/-- The way that the dot takes when it has met somebody with this number. -/
def onMeeting (v : Int) : OriginalWay := if v = 0 then falling else rising

end OriginalWay

/-- Where the dot is that is cloned. -/
inductive Original
  /-- It comes in after so many ticks. -/
  | away (k : Nat)
  /-- It has been on this way for so many ticks. -/
  | on (y : OriginalWay) (k : Fin y.length)
  /-- It has waited at the switch for so many ticks. -/
  | waiting (age : Nat)
  | gone

/-- The dot sets out on a way. -/
def OriginalWay.begin (y : OriginalWay) : Original := .on y ⟨0, by cases y <;> decide⟩

/-- Where the dot is at the end of the way. -/
def OriginalWay.after : OriginalWay → Original
  | coming => .waiting 0
  | rising => .waiting 0
  | falling => .gone

namespace Original

/-- Where the dot is after a tick, with this queue at the switch. -/
def next (queue : List (Int × Nat)) : Original → Original
  | away 0 => OriginalWay.coming.begin
  | away (k + 1) => away k
  | on y k => if h : k.val + 1 < y.length then on y ⟨k.val + 1, h⟩ else y.after
  | waiting age =>
    match queue with
    | [] => waiting (age + 1)
    | q :: _ => (OriginalWay.onMeeting q.1).begin
  | gone => gone

/-- Who goes out in the tick. -/
def out : Original → List Pos
  | on y k => if k.val + 1 < y.length then [] else y.out
  | _ => []

/-- Who goes out before the dot is at the switch again. -/
def due : Original → List Pos
  | on y _ => y.out
  | _ => []

def isWaiting : Original → Bool
  | waiting _ => true
  | _ => false

/-- The dot has met the zero. -/
def isServed : Original → Bool
  | on .falling _ => true
  | gone => true
  | _ => false

/-- In how many ticks the dot will be at the switch, or outside. -/
def ahead : Original → Nat
  | away k => k + 4
  | on y k => y.length - k.val
  | _ => 0

variable {y : OriginalWay} {k : Fin y.length} {queue : List (Int × Nat)}

theorem next_on (h : k.val + 1 < y.length) : (on y k).next queue = on y ⟨k.val + 1, h⟩ := dif_pos h

theorem next_end (h : ¬ k.val + 1 < y.length) : (on y k).next queue = y.after := dif_neg h

theorem out_on (h : k.val + 1 < y.length) : (on y k).out = [] := if_pos h

theorem out_end (h : ¬ k.val + 1 < y.length) : (on y k).out = y.out := if_neg h

theorem next_eq_away_iff {o : Original} {j : Nat} : o.next queue = away j ↔ o = away (j + 1) := by
  cases o with
  | away k =>
    cases k with
    | zero => exact iff_of_false nofun nofun
    | succ k => exact ⟨fun h => by cases h; rfl, fun h => by cases h; rfl⟩
  | waiting age =>
    refine iff_of_false ?_ nofun
    cases queue <;> exact nofun
  | gone => exact iff_of_false nofun nofun
  | on y k =>
    refine iff_of_false ?_ nofun
    by_cases h : k.val + 1 < y.length
    · rw [next_on h]
      exact nofun
    · rw [next_end h]
      cases y <;> exact nofun

/-- As long as the dot meets nobody, it is served later or has been before. -/
theorem isServed_next (o : Original) : (o.next []).isServed = o.isServed := by
  cases o with
  | away k => cases k <;> rfl
  | waiting age => rfl
  | gone => rfl
  | on y k =>
    by_cases h : k.val + 1 < y.length
    · rw [next_on h]
      cases y <;> rfl
    · rw [next_end h]
      cases y <;> rfl

theorem due_eq (o : Original) : o.due = o.out ++ (o.next []).due := by
  cases o with
  | away k => cases k <;> rfl
  | waiting age => rfl
  | gone => rfl
  | on y k =>
    by_cases h : k.val + 1 < y.length
    · rw [next_on h, out_on h]
      rfl
    · rw [next_end h, out_end h]
      cases y <;> rfl

theorem ahead_next (o : Original) : (o.next []).ahead = o.ahead - 1 := by
  cases o with
  | away k => cases k <;> rfl
  | waiting age => rfl
  | gone => rfl
  | on y k =>
    by_cases h : k.val + 1 < y.length
    · rw [next_on h]
      show y.length - (k.val + 1) = y.length - k.val - 1
      omega
    · rw [next_end h]
      have hafter : y.after.ahead = 0 := by cases y <;> rfl
      show y.after.ahead = y.length - k.val - 1
      omega

/-- One at a time goes out. -/
theorem length_out_le (o : Original) : o.out.length ≤ 1 := by
  cases o with
  | on y k =>
    by_cases h : k.val + 1 < y.length
    · rw [out_on h]
      exact Nat.zero_le 1
    · rw [out_end h]
      cases y <;> decide
  | _ => exact Nat.zero_le 1

theorem mem_out {o : Original} {dir : Pos} (h : dir ∈ o.out) : dir = .up ∨ dir = .down := by
  cases o with
  | on y k =>
    by_cases hk : k.val + 1 < y.length
    · rw [out_on hk] at h
      cases h
    · rw [out_end hk] at h
      cases y with
      | coming => cases h
      | rising => exact .inl (List.mem_singleton.mp h)
      | falling => exact .inr (List.mem_singleton.mp h)
  | _ => cases h

/-- The dot is at the switch, and no more than that. -/
theorem isWaiting_of_ahead {o : Original} (h : o.ahead = 0) (hserved : o.isServed = false) :
    o.isWaiting = true := by
  cases o with
  | away k => cases h
  | waiting age => rfl
  | gone => cases hserved
  | on y k =>
    have hk := k.isLt
    have h : y.length - k.val = 0 := h
    omega

end Original

/-! ## The dot that counts down -/

/-- The ways of the dot: to its loop, round it with the number `m + 2`, and into the
    dead end with the number 1. -/
inductive CounterWay
  | entering (m : Nat)
  | lap (m : Nat)
  | last

namespace CounterWay

def length : CounterWay → Nat
  | entering _ => 9
  | lap _ => 24
  | last => 15

/-- The numbers that are brought to the switch in the tick `k` of the way. -/
def sends : CounterWay → Nat → List Int
  | entering _, _ => []
  | lap m, k => if k = 2 then [(m : Int) + 2] else []
  | last, k => if k = 2 then [1] else if k = 14 then [0] else []

/-- The way round the loop with the number `m + 1`. -/
def round : Nat → CounterWay
  | 0 => last
  | m + 1 => lap m

end CounterWay

/-- Where the dot is that counts down. -/
inductive Counter
  /-- It comes in after so many ticks, with the number `m + 1`. -/
  | away (k m : Nat)
  | on (y : CounterWay) (k : Fin y.length)
  | finished

def CounterWay.begin (y : CounterWay) : Counter := .on y ⟨0, by cases y <;> exact Nat.succ_pos _⟩

def CounterWay.after : CounterWay → Counter
  | entering m => (round m).begin
  | lap m => (round m).begin
  | last => .finished

namespace Counter

def next : Counter → Counter
  | away 0 m => (CounterWay.entering m).begin
  | away (k + 1) m => away k m
  | on y k => if h : k.val + 1 < y.length then on y ⟨k.val + 1, h⟩ else y.after
  | finished => finished

def sends : Counter → List Int
  | on y k => y.sends k.val
  | _ => []

/-- How many numbers are not sent yet. -/
def left : Counter → Nat
  | away _ m => m + 2
  | on (.entering m) _ => m + 2
  | on (.lap m) k => if k.val ≤ 2 then m + 3 else m + 2
  | on .last k => if k.val ≤ 2 then 2 else 1
  | finished => 0

/-- How many ticks it takes until the zero is sent. -/
def lasts : Counter → Nat
  | away k m => k + 25 + 24 * m
  | on (.entering m) k => 24 - k.val + 24 * m
  | on (.lap m) k => 39 - k.val + 24 * m
  | on .last k => 15 - k.val
  | finished => 0

variable {c : Counter}

theorem left_round (m : Nat) : (CounterWay.round m).begin.left = m + 2 := by
  cases m <;> rfl

theorem lasts_round (m : Nat) : (CounterWay.round m).begin.lasts = 24 * m + 15 := by
  cases m with
  | zero => rfl
  | succ m =>
    show 39 - 0 + 24 * m = _
    omega

theorem next_on {y : CounterWay} {k : Fin y.length} (h : k.val + 1 < y.length) :
    (on y k).next = on y ⟨k.val + 1, h⟩ := dif_pos h

theorem next_end {y : CounterWay} {k : Fin y.length} (h : ¬ k.val + 1 < y.length) :
    (on y k).next = y.after := dif_neg h

theorem next_eq_away_iff {j m : Nat} : c.next = away j m ↔ c = away (j + 1) m := by
  cases c with
  | away k m' =>
    cases k with
    | zero => exact iff_of_false nofun nofun
    | succ k => exact ⟨fun h => by cases h; rfl, fun h => by cases h; rfl⟩
  | finished => exact iff_of_false nofun nofun
  | on y k =>
    refine iff_of_false ?_ nofun
    by_cases h : k.val + 1 < y.length
    · rw [next_on h]
      exact nofun
    · rw [next_end h]
      cases y with
      | entering m' => cases m' <;> exact nofun
      | lap m' => cases m' <;> exact nofun
      | last => exact nofun

/-- A tick sends the next number, or none. -/
theorem sends_cases (c : Counter) :
    (c.sends = [] ∧ c.next.left = c.left) ∨
      (c.sends = [(c.next.left : Int)] ∧ c.left = c.next.left + 1 ∧ c.next.sends = []) := by
  cases c with
  | away k m => cases k <;> exact .inl ⟨rfl, rfl⟩
  | finished => exact .inl ⟨rfl, rfl⟩
  | on y k =>
    by_cases h : k.val + 1 < y.length
    · -- On its way a number is sent from the third cell only.
      rw [next_on h]
      cases y with
      | entering m => exact .inl ⟨rfl, rfl⟩
      | lap m =>
        by_cases hk : k.val = 2
        · exact .inr (by simp [sends, CounterWay.sends, left, hk])
        · have hleft : k.val + 1 ≤ 2 ↔ k.val ≤ 2 := by omega
          exact .inl (by simp [sends, CounterWay.sends, left, hk, hleft])
      | last =>
        have hlast : k.val ≠ 14 := by simp only [CounterWay.length] at h; omega
        by_cases hk : k.val = 2
        · exact .inr (by simp [sends, CounterWay.sends, left, hk])
        · have hleft : k.val + 1 ≤ 2 ↔ k.val ≤ 2 := by omega
          exact .inl (by simp [sends, CounterWay.sends, left, hk, hleft, hlast])
    · -- At the end of a way the counter begins the next one, or it is done.
      rw [next_end h]
      have hk := k.isLt
      cases y with
      | entering m => exact .inl ⟨rfl, left_round m⟩
      | lap m =>
        have hk : k.val = 23 := by simp only [CounterWay.length] at h hk; omega
        refine .inl ⟨?_, ?_⟩
        · simp [sends, CounterWay.sends, hk]
        · show (CounterWay.round m).begin.left = _
          rw [left_round]
          simp [left, hk]
      | last =>
        have hk : k.val = 14 := by simp only [CounterWay.length] at h hk; omega
        refine .inr ⟨?_, ?_, rfl⟩
        · simp [sends, CounterWay.sends, hk, CounterWay.after, left]
        · simp [CounterWay.after, left, hk]

theorem lasts_next (c : Counter) : c.next.lasts = c.lasts - 1 := by
  cases c with
  | away k m =>
    cases k with
    | zero =>
      show 24 - 0 + 24 * m = 0 + 25 + 24 * m - 1
      omega
    | succ k =>
      show k + 25 + 24 * m = k + 1 + 25 + 24 * m - 1
      omega
  | finished => rfl
  | on y k =>
    have hk := k.isLt
    by_cases h : k.val + 1 < y.length
    · rw [next_on h]
      cases y <;> simp only [CounterWay.length] at h hk <;> simp only [lasts] <;> omega
    · rw [next_end h]
      cases y with
      | entering m =>
        show (CounterWay.round m).begin.lasts = 24 - k.val + 24 * m - 1
        simp only [CounterWay.length] at h hk
        rw [lasts_round]
        omega
      | lap m =>
        show (CounterWay.round m).begin.lasts = 39 - k.val + 24 * m - 1
        simp only [CounterWay.length] at h hk
        rw [lasts_round]
        omega
      | last =>
        show 0 = 15 - k.val - 1
        simp only [CounterWay.length] at h hk
        omega

/-- The numbers come slowly. -/
theorem left_lt_lasts (h : c.left ≠ 0) : 4 * (c.left - 1) < c.lasts := by
  cases c with
  | away k m => simp only [left, lasts]; omega
  | finished => exact absurd rfl h
  | on y k =>
    have hk := k.isLt
    cases y <;> simp only [CounterWay.length] at hk <;> simp only [left, lasts]
    · omega
    · split <;> omega
    · split <;> omega

theorem eq_finished_of_left (h : c.left = 0) : c = .finished := by
  cases c with
  | away k m => cases h
  | finished => rfl
  | on y k =>
    cases y with
    | entering m => cases h
    | lap m => simp only [left] at h; split at h <;> omega
    | last => simp only [left] at h; split at h <;> omega

end Counter

/-! ## Both dots -/

/-- The two dots, and who waits at the switch, with their numbers and their ages. -/
structure State where
  original : Original
  counter : Counter
  queue : List (Int × Nat)

namespace State

/-- Who waits at the switch and is not met in the next tick. -/
def unmet (s : State) : List (Int × Nat) := if s.original.isWaiting then s.queue.tail else s.queue

/-- One tick. -/
def next (s : State) : State :=
  { original := s.original.next s.queue
    counter := s.counter.next
    queue := s.unmet.map older ++ s.counter.sends.map (·, 0) }

/-- How many numbers the first dot has not met yet. -/
def pending (s : State) : Nat := s.queue.length + s.counter.left

/-- The first dot meets the first of the queue, or it meets nobody. -/
theorem meeting_cases (s : State) :
    (∃ age q, s.original = .waiting age ∧ s.queue = q :: s.unmet) ∨
      (s.unmet = s.queue ∧ (s.original.isWaiting = true → s.queue = []) ∧
        s.original.next s.queue = s.original.next []) := by
  unfold unmet
  cases horiginal : s.original with
  | away k => exact .inr ⟨rfl, nofun, by cases k <;> rfl⟩
  | on y k => exact .inr ⟨rfl, nofun, rfl⟩
  | gone => exact .inr ⟨rfl, nofun, rfl⟩
  | waiting age =>
    cases hqueue : s.queue with
    | nil => exact .inr ⟨rfl, fun _ => rfl, rfl⟩
    | cons q queue => exact .inl ⟨age, q, rfl, rfl⟩

variable {s : State} {age : Nat} {q : Int × Nat}

theorem next_original_of_meeting (horiginal : s.original = .waiting age)
    (hqueue : s.queue = q :: s.unmet) : s.next.original = (OriginalWay.onMeeting q.1).begin := by
  show s.original.next s.queue = _
  rw [horiginal, hqueue]
  rfl

theorem pending_of_meeting (hqueue : s.queue = q :: s.unmet) :
    s.pending = s.unmet.length + s.counter.left + 1 := by
  unfold pending
  rw [hqueue, List.length_cons]
  omega

end State

/-- The numbers from `low + k - 1` down to `low`. -/
def descending (low : Nat) : Nat → List Int
  | 0 => []
  | k + 1 => ((low + k : Nat) : Int) :: descending low k

theorem descending_concat (low k : Nat) :
    descending (low + 1) k ++ [(low : Int)] = descending low (k + 1) := by
  induction k with
  | zero => rfl
  | succ k ih =>
    rw [descending, List.cons_append, ih, show low + 1 + k = low + (k + 1) by omega]
    rfl

/-- The queue is in order. -/
structure Ordered (s : State) : Prop where
  spaced : Spaced s.queue
  /-- When somebody joins the queue, the others have been there for a while. -/
  waited : s.counter.sends ≠ [] → ∀ q ∈ s.queue, 1 ≤ q.2
  numbers : s.queue.map Prod.fst = descending s.counter.left s.queue.length
  /-- The last number is a zero. -/
  served : s.original.isServed = true ↔ s.pending = 0

namespace Ordered

variable {s : State}

theorem sublist_unmet (s : State) : s.unmet.Sublist s.queue := by
  unfold State.unmet
  split
  · exact List.tail_sublist _
  · exact .refl _

theorem spaced_older {queue : List (Int × Nat)} (h : Spaced queue) : Spaced (queue.map older) := by
  unfold Spaced
  rw [List.pairwise_map]
  refine h.imp ?_
  intro a b hab
  show b.2 + 1 + 2 ≤ a.2 + 1
  omega

theorem spaced_next (h : Ordered s) : Spaced s.next.queue := by
  have hunmet : Spaced (s.unmet.map older) := spaced_older (h.spaced.sublist (sublist_unmet s))
  show Spaced (s.unmet.map older ++ s.counter.sends.map (·, 0))
  rcases s.counter.sends_cases with ⟨hsends, -⟩ | ⟨hsends, -⟩
  · rw [hsends, List.map_nil, List.append_nil]
    exact hunmet
  · rw [hsends]
    refine List.pairwise_append.mpr ⟨hunmet, List.pairwise_singleton _ _, ?_⟩
    intro a ha b hb
    obtain ⟨q, hq, rfl⟩ := List.mem_map.mp ha
    obtain rfl := List.mem_singleton.mp hb
    -- Whoever joins is new, and the others have waited for one tick at least.
    have hage := h.waited (by rw [hsends]; exact List.cons_ne_nil _ _) q
      ((sublist_unmet s).subset hq)
    show 0 + 2 ≤ q.2 + 1
    omega

theorem waited_next (s : State) :
    s.next.counter.sends ≠ [] → ∀ q ∈ s.next.queue, 1 ≤ q.2 := by
  intro hnext q hq
  rcases s.counter.sends_cases with ⟨hsends, -⟩ | ⟨-, -, hquiet⟩
  · have hq : q ∈ s.unmet.map older ++ s.counter.sends.map (·, 0) := hq
    rw [hsends, List.map_nil, List.append_nil] at hq
    obtain ⟨b, -, rfl⟩ := List.mem_map.mp hq
    exact Nat.succ_pos _
  · -- Nobody joins the queue in two ticks on end.
    exact absurd hquiet hnext

/-- The first of the queue brings the number that is due. -/
theorem number_met (h : Ordered s) {q : Int × Nat} (hqueue : s.queue = q :: s.unmet) :
    q.1 = ((s.unmet.length + s.counter.left : Nat) : Int) := by
  have hnumbers := h.numbers
  rw [hqueue] at hnumbers
  have hhead := (List.cons.inj hnumbers).1
  rw [hhead, Nat.add_comm]

/-- The numbers of those who are not met. -/
theorem numbers_unmet (h : Ordered s) :
    s.unmet.map Prod.fst = descending s.counter.left s.unmet.length := by
  unfold State.unmet
  split
  · have htail := congrArg List.tail h.numbers
    rw [← List.map_tail] at htail
    rw [htail]
    cases s.queue <;> rfl
  · exact h.numbers

theorem numbers_next (h : Ordered s) :
    s.next.queue.map Prod.fst = descending s.next.counter.left s.next.queue.length := by
  have hunmet := h.numbers_unmet
  have holder : (s.unmet.map older).map Prod.fst = s.unmet.map Prod.fst := by
    rw [List.map_map]
    rfl
  show (s.unmet.map older ++ s.counter.sends.map (·, 0)).map Prod.fst =
    descending s.counter.next.left (s.unmet.map older ++ s.counter.sends.map (·, 0)).length
  rw [List.map_append, holder, hunmet, List.length_append, List.length_map, List.length_map]
  rcases s.counter.sends_cases with ⟨hsends, hleft⟩ | ⟨hsends, hleft, -⟩
  · rw [hsends, hleft]
    simp
  · -- Whoever joins brings the number below those in the queue.
    rw [hsends, hleft]
    exact descending_concat _ _

/-- A tick takes those who are met from the numbers that are pending. -/
theorem pending_next (s : State) : s.next.pending = s.unmet.length + s.counter.left := by
  have hpending : s.next.pending =
      (s.unmet.map older ++ s.counter.sends.map (·, 0)).length + s.counter.next.left := rfl
  rw [hpending, List.length_append, List.length_map, List.length_map]
  rcases s.counter.sends_cases with ⟨hsends, hleft⟩ | ⟨hsends, hleft, -⟩
  · rw [hsends, hleft]
    rfl
  · rw [hsends, hleft, List.length_singleton]
    omega

theorem isServed_begin (v : Nat) :
    (OriginalWay.onMeeting v).begin.isServed = true ↔ v = 0 := by
  unfold OriginalWay.onMeeting
  by_cases hv : v = 0
  · rw [if_pos (by omega)]
    exact iff_of_true rfl hv
  · rw [if_neg (by omega)]
    exact iff_of_false nofun hv

/-- The first dot is served in the tick in which it meets the last number, a zero. -/
theorem served_next (h : Ordered s) : s.next.original.isServed = true ↔ s.next.pending = 0 := by
  rw [pending_next]
  rcases s.meeting_cases with ⟨age, q, horiginal, hqueue⟩ | ⟨hunmet, -, hnext⟩
  · rw [State.next_original_of_meeting horiginal hqueue, h.number_met hqueue]
    exact isServed_begin _
  · show (s.original.next s.queue).isServed = true ↔ _
    rw [hnext, Original.isServed_next, hunmet]
    exact h.served

/-- A tick keeps the queue in order. -/
theorem next (h : Ordered s) : Ordered s.next where
  spaced := h.spaced_next
  waited := waited_next s
  numbers := h.numbers_next
  served := h.served_next

theorem iterate (h : Ordered s) (k : Nat) : Ordered (State.next^[k] s) := by
  induction k with
  | zero => exact h
  | succ k ih =>
    rw [Function.iterate_succ_apply']
    exact ih.next

end Ordered

/-! ## What is due -/

/-- The directions in which dots go out while so many numbers are met, down to zero. -/
def dueFor : Nat → List Pos
  | 0 => []
  | k + 1 => (OriginalWay.onMeeting k).out ++ dueFor k

theorem dueFor_succ (n : Nat) : dueFor (n + 1) = List.replicate n .up ++ [.down] := by
  induction n with
  | zero => rfl
  | succ n ih =>
    have hup : OriginalWay.onMeeting ((n + 1 : Nat) : Int) = .rising := if_neg (by omega)
    rw [dueFor, ih, hup]
    rfl

namespace State

/-- The directions in which dots are still to go out. -/
def due (s : State) : List Pos := s.original.due ++ dueFor s.pending

/-- How many ticks it takes until all have gone out. -/
def remaining (s : State) : Nat :=
  if s.original.isServed then s.original.ahead
  else max (s.original.ahead + 4 * (s.pending - 1)) s.counter.lasts + 7

variable {s : State}

/-- What is due is what goes out in the next tick, and what is due after it. -/
theorem due_eq (h : Ordered s) : s.due = s.original.out ++ s.next.due := by
  unfold due
  rw [Ordered.pending_next]
  rcases s.meeting_cases with ⟨age, q, horiginal, hqueue⟩ | ⟨hunmet, -, hnext⟩
  · -- The number that is met says which way is taken.
    rw [next_original_of_meeting horiginal hqueue, h.number_met hqueue, horiginal,
      pending_of_meeting hqueue]
    rfl
  · show _ = s.original.out ++ ((s.original.next s.queue).due ++ _)
    rw [hnext, hunmet, Original.due_eq s.original, List.append_assoc]
    rfl

/-- What goes out in some ticks on end, and what is due after them. -/
theorem due_iterate (h : Ordered s) (k : Nat) :
    s.due = ((List.range k).flatMap fun j => (next^[j] s).original.out) ++ (next^[k] s).due := by
  induction k with
  | zero => rfl
  | succ k ih =>
    rw [ih, due_eq (h.iterate k), List.range_succ, List.flatMap_append, List.flatMap_singleton,
      List.append_assoc, Function.iterate_succ_apply']

/-- The last meeting is that with the zero. -/
theorem remaining_next_of_meeting (h : Ordered s) {age : Nat} {q : Int × Nat}
    (horiginal : s.original = .waiting age) (hqueue : s.queue = q :: s.unmet) :
    s.next.remaining = s.remaining - 1 := by
  have hbefore : s.remaining = max (4 * (s.unmet.length + s.counter.left)) s.counter.lasts + 7 := by
    unfold remaining
    rw [horiginal, pending_of_meeting hqueue]
    show max (0 + 4 * (s.unmet.length + s.counter.left + 1 - 1)) _ + 7 = _
    rw [Nat.zero_add, Nat.add_sub_cancel]
  rw [hbefore]
  unfold remaining
  rw [next_original_of_meeting horiginal hqueue, Ordered.pending_next, h.number_met hqueue]
  show (if _ then _ else max _ s.counter.next.lasts + 7) = _
  rw [Counter.lasts_next]
  by_cases hzero : s.unmet.length + s.counter.left = 0
  · -- Nobody is behind it in the queue, and nobody will come.
    have hfinished : s.counter = .finished := Counter.eq_finished_of_left (by omega)
    rw [hzero, hfinished]
    rfl
  · have hrising : OriginalWay.onMeeting ((s.unmet.length + s.counter.left : Nat) : Int) = .rising :=
      if_neg (by omega)
    -- The round takes four ticks, and this is the first one of them.
    rw [hrising]
    show max (3 + 4 * (s.unmet.length + s.counter.left - 1)) (s.counter.lasts - 1) + 7 = _
    omega

theorem remaining_next (h : Ordered s) : s.next.remaining = s.remaining - 1 := by
  rcases s.meeting_cases with ⟨age, q, horiginal, hqueue⟩ | ⟨hunmet, hwaiting, hnext⟩
  · exact remaining_next_of_meeting h horiginal hqueue
  · have hpending : s.next.pending = s.pending := by
      rw [Ordered.pending_next, hunmet]
      rfl
    have hnext : s.next.original = s.original.next [] := hnext
    have hlasts : s.next.counter.lasts = s.counter.lasts - 1 := s.counter.lasts_next
    unfold remaining
    rw [hnext, hpending, hlasts, Original.isServed_next, Original.ahead_next]
    by_cases hserved : s.original.isServed = true
    · rw [if_pos hserved, if_pos hserved]
    · rw [if_neg hserved, if_neg hserved]
      have hsome : s.pending ≠ 0 := fun hzero => hserved (h.served.mpr hzero)
      by_cases hahead : s.original.ahead = 0
      · -- The dot waits for a number that has not been sent yet.
        have hqueue := hwaiting (Original.isWaiting_of_ahead hahead (by simpa using hserved))
        have hleft : s.pending = s.counter.left := by
          unfold pending
          rw [hqueue, List.length_nil, Nat.zero_add]
        have hslow := Counter.left_lt_lasts (hleft ▸ hsome)
        rw [hleft]
        omega
      · omega

theorem remaining_iterate (h : Ordered s) (k : Nat) :
    (next^[k] s).remaining = s.remaining - k := by
  induction k with
  | zero => rfl
  | succ k ih =>
    rw [Function.iterate_succ_apply', remaining_next (h.iterate k), ih, Nat.sub_sub]

/-- When no ticks remain, all is over. -/
theorem over_of_remaining (h : Ordered s) (hremaining : s.remaining = 0) :
    s = ⟨.gone, .finished, []⟩ := by
  unfold remaining at hremaining
  have hserved : s.original.isServed = true := by
    by_contra hserved
    rw [if_neg hserved] at hremaining
    omega
  rw [if_pos hserved] at hremaining
  have hpending := h.served.mp hserved
  unfold pending at hpending
  have hcounter : s.counter = .finished := Counter.eq_finished_of_left (by omega)
  have hqueue : s.queue = [] := List.length_eq_zero_iff.mp (by omega)
  obtain ⟨original, counter, queue⟩ := s
  obtain rfl : counter = .finished := hcounter
  obtain rfl : queue = [] := hqueue
  cases original with
  | away k => cases hserved
  | waiting age => cases hserved
  | gone => rfl
  | on y k =>
    have hk := k.isLt
    have hremaining : y.length - k.val = 0 := hremaining
    omega

/-- The dot goes out downwards in the last tick, and only then. -/
theorem out_of_remaining (hremaining : s.remaining = 1) : s.original.out = [.down] := by
  unfold remaining at hremaining
  split at hremaining
  · next hserved =>
    cases horiginal : s.original with
    | on y k =>
      rw [horiginal] at hserved hremaining
      cases y with
      | falling =>
        have hlast : 6 - k.val = 1 := hremaining
        exact Original.out_end (by show ¬ k.val + 1 < 6; omega)
      | coming => cases hserved
      | rising => cases hserved
    | gone =>
      rw [horiginal] at hremaining
      cases hremaining
    | away k =>
      rw [horiginal] at hserved
      cases hserved
    | waiting age =>
      rw [horiginal] at hserved
      cases hserved
  · omega

theorem remaining_of_down (h : .down ∈ s.original.out) : s.remaining = 1 := by
  cases horiginal : s.original with
  | on y k =>
    rw [horiginal] at h
    have hk := k.isLt
    by_cases hlast : k.val + 1 < y.length
    · rw [Original.out_on hlast] at h
      cases h
    · rw [Original.out_end hlast] at h
      cases y with
      | falling =>
        simp only [OriginalWay.length] at hk hlast
        unfold remaining
        rw [horiginal]
        show 6 - k.val = 1
        omega
      | coming => cases h
      | rising =>
        have hne : Pos.down ∉ [Pos.up] := by decide
        exact absurd h hne
  | _ => rw [horiginal] at h; cases h

end State

/-! ## From the beginning -/

/-- Nobody is there yet.  The two dots come in after `a` and after `b` ticks, the second
    with the number `m + 1`. -/
def start (a b m : Nat) : State := ⟨.away a, .away b m, []⟩

/-- How many ticks it takes from there. -/
def duration (a b m : Nat) : Nat := max (a + 4 * (m + 1) + 11) (b + 24 * (m + 1) + 8)

section run
variable (a b m : Nat)

theorem ordered_start : Ordered (start a b m) where
  spaced := .nil
  waited := fun _ _ hq => nomatch hq
  numbers := rfl
  served := by simp [start, Original.isServed, State.pending, Counter.left]

theorem remaining_run (k : Nat) :
    (State.next^[k] (start a b m)).remaining = duration a b m - k := by
  rw [State.remaining_iterate (ordered_start a b m)]
  show max (a + 4 + 4 * (0 + (m + 2) - 1)) (b + 25 + 24 * m) + 7 - k =
    max (a + 4 * (m + 1) + 11) (b + 24 * (m + 1) + 8) - k
  omega

theorem run_over : State.next^[duration a b m] (start a b m) = ⟨.gone, .finished, []⟩ := by
  apply State.over_of_remaining ((ordered_start a b m).iterate _)
  rw [remaining_run, Nat.sub_self]

/-- All who go out. -/
theorem out_of_run :
    ((List.range (duration a b m)).flatMap fun j => (State.next^[j] (start a b m)).original.out) =
      List.replicate (m + 1) .up ++ [.down] := by
  have hdue := State.due_iterate (ordered_start a b m) (duration a b m)
  have hstart : (start a b m).due = dueFor (m + 1 + 1) := by
    show dueFor (0 + (m + 2)) = _
    rw [Nat.zero_add]
  rw [run_over, hstart, dueFor_succ] at hdue
  rw [hdue]
  exact (List.append_nil _).symm

theorem original_away_iff (j k : Nat) :
    (State.next^[j] (start a b m)).original = .away k ↔ a = k + j := by
  induction j generalizing k with
  | zero => exact Original.away.injEq a k ▸ Iff.rfl
  | succ j ih =>
    rw [Function.iterate_succ_apply']
    show (Original.next _ _) = _ ↔ _
    rw [Original.next_eq_away_iff, ih]
    omega

theorem counter_away_iff (j k m' : Nat) :
    (State.next^[j] (start a b m)).counter = .away k m' ↔ b = k + j ∧ m = m' := by
  induction j generalizing k with
  | zero => exact Counter.away.injEq b m k m' ▸ Iff.rfl
  | succ j ih =>
    rw [Function.iterate_succ_apply']
    show (Counter.next _) = _ ↔ _
    rw [Counter.next_eq_away_iff, ih]
    omega

end run

end Cloning

end DotPaths
