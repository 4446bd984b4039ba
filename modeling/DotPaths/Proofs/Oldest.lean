import DotPaths.Machine.Meeting

/-! # Who has waited longest

    The dot that has waited longest at a position in a role is found by one
    pass over the list, with the number and the age of the best one so far.
    It is the first of those whose age is greatest.
-/

namespace DotPaths.Meeting

/-- How long the dot with number `k` has waited at a position in a role, if it
    waits there. -/
def waited? (p : Pos) (master : Bool) (dots : List Dot) (k : Nat) : Option Nat :=
  dots[k]?.bind (Dot.waitingAge? p master)

/-- The dot with number `k` has waited for `a` turns, no other one has waited
    longer, and none before it as long. -/
structure IsOldest (p : Pos) (master : Bool) (dots : List Dot) (k a : Nat) : Prop where
  waits : waited? p master dots k = some a
  longest : ∀ j b, waited? p master dots j = some b → b ≤ a
  first : ∀ j b, j < k → waited? p master dots j = some b → b < a

variable {p : Pos} {master : Bool} {dots : List Dot}

/-! ## Waiting at a position -/

theorem waitingAge?_eq_some_iff {d : Dot} {a : Nat} :
    d.waitingAge? p master = some a ↔
      ∃ m, d.phase = .meet m ∧ d.pos = p ∧ m.master = master ∧ m.age = a := by
  unfold Dot.waitingAge?
  cases d.phase <;> simp [Phase.meeting?, and_assoc]

theorem waited?_eq_some_iff {k a : Nat} :
    waited? p master dots k = some a ↔
      ∃ d m, dots[k]? = some d ∧ d.phase = .meet m ∧ d.pos = p ∧ m.master = master ∧
        m.age = a := by
  unfold waited?
  rw [Option.bind_eq_some_iff]
  simp only [waitingAge?_eq_some_iff]
  constructor
  · rintro ⟨d, hd, m, h⟩; exact ⟨d, m, hd, h⟩
  · rintro ⟨d, m, hd, h⟩; exact ⟨d, hd, m, h⟩

theorem waited?_lt_length {k a : Nat} (h : waited? p master dots k = some a) :
    k < dots.length := by
  obtain ⟨d, m, hd, -⟩ := waited?_eq_some_iff.mp h
  exact (List.getElem?_eq_some_iff.mp hd).1

/-! ## The pass over the list -/

section pass
variable {d : Dot} {ds : List Dot}

@[simp] theorem waited?_cons_zero :
    waited? p master (d :: ds) 0 = d.waitingAge? p master := rfl

/-- The first dot is the oldest if nobody after it has waited longer. -/
theorem IsOldest.head {a : Nat} (hd : d.waitingAge? p master = some a)
    (hds : ∀ j b, waited? p master ds j = some b → b ≤ a) :
    IsOldest p master (d :: ds) 0 a := by
  refine ⟨hd, ?_, by omega⟩
  intro j b hj
  cases j with
  | zero => rw [waited?_cons_zero, hd] at hj; cases hj; exact Nat.le_refl a
  | succ j => exact hds j b hj

/-- The oldest of the rest is the oldest of all if it has waited longer than
    the first dot. -/
theorem IsOldest.tail {k a : Nat} (hk : IsOldest p master ds k a)
    (hd : ∀ b, d.waitingAge? p master = some b → b < a) :
    IsOldest p master (d :: ds) (k + 1) a := by
  refine ⟨hk.waits, ?_, ?_⟩
  · intro j b hj
    cases j with
    | zero => exact Nat.le_of_lt (hd b hj)
    | succ j => exact hk.longest j b hj
  · intro j b hlt hj
    cases j with
    | zero => exact hd b hj
    | succ j => exact hk.first j b (by omega) hj

/-- The better of two candidates has waited at least as long as each, and
    longer than the earlier one if it is the later one. -/
theorem older_eq_some {best : Option (Nat × Nat)} {i age k a : Nat}
    (h : older best i age = some (k, a)) :
    (best = some (k, a) ∧ age ≤ a) ∨
      (k = i ∧ a = age ∧ ∀ j b, best = some (j, b) → b < age) := by
  unfold older at h
  split at h
  · next j b =>
    split at h
    · next hlt => cases h; right; refine ⟨rfl, rfl, ?_⟩; intro _ _ hb; cases hb; exact hlt
    · next hge => cases h; left; exact ⟨rfl, by omega⟩
  · cases h; right; exact ⟨rfl, rfl, by simp⟩

theorem exists_older (best : Option (Nat × Nat)) (i age : Nat) :
    ∃ k a, older best i age = some (k, a) := by
  unfold older
  split
  · split <;> exact ⟨_, _, rfl⟩
  · exact ⟨_, _, rfl⟩

end pass

/-- What the pass answers: the best one so far, if nobody in the rest of the
    list has waited longer, or else the first of those in the rest who have
    waited longest. -/
theorem oldestFrom_eq_some {i k a : Nat} {best : Option (Nat × Nat)}
    (h : oldestFrom p master i best dots = some (k, a)) :
    (best = some (k, a) ∧ ∀ j b, waited? p master dots j = some b → b ≤ a) ∨
      ∃ k', k = i + k' ∧ IsOldest p master dots k' a ∧ ∀ j b, best = some (j, b) → b < a := by
  induction dots generalizing i best with
  | nil =>
    left
    refine ⟨h, ?_⟩
    intro j b hj
    simp [waited?] at hj
  | cons d ds ih =>
    rw [oldestFrom] at h
    cases hd : d.waitingAge? p master with
    | none =>
      rw [hd] at h
      rcases ih h with ⟨hbest, hall⟩ | ⟨k', rfl, hk, hbest⟩
      · left
        refine ⟨hbest, ?_⟩
        intro j b hj
        cases j with
        | zero => rw [waited?_cons_zero, hd] at hj; cases hj
        | succ j => exact hall j b hj
      · right
        exact ⟨k' + 1, by omega, hk.tail (by simp [hd]), hbest⟩
    | some age =>
      rw [hd] at h
      rcases ih h with ⟨hbest, hall⟩ | ⟨k', rfl, hk, hbest⟩
      · -- Nobody in the rest has waited longer: it is `d` or the old best.
        rcases older_eq_some hbest with ⟨rfl, hle⟩ | ⟨rfl, rfl, hlt⟩
        · left
          refine ⟨rfl, ?_⟩
          intro j b hj
          cases j with
          | zero => rw [waited?_cons_zero, hd] at hj; cases hj; exact hle
          | succ j => exact hall j b hj
        · right
          exact ⟨0, rfl, IsOldest.head hd hall, hlt⟩
      · -- Somebody in the rest has waited longer than both.
        obtain ⟨l, c, hold⟩ := exists_older best i age
        have hc : c < a := hbest l c hold
        right
        rcases older_eq_some hold with ⟨rfl, hle⟩ | ⟨rfl, rfl, hlt⟩
        · refine ⟨k' + 1, by omega, hk.tail ?_, ?_⟩
          · intro b hb; rw [hd] at hb; cases hb; omega
          · intro j b hj; cases hj; exact hc
        · refine ⟨k' + 1, by omega, hk.tail ?_, ?_⟩
          · intro b hb; rw [hd] at hb; cases hb; exact hc
          · intro j b hj; have := hlt j b hj; omega

/-- The pass has no answer only if there is nobody to answer with. -/
theorem oldestFrom_eq_none {i : Nat} {best : Option (Nat × Nat)}
    (h : oldestFrom p master i best dots = none) :
    best = none ∧ ∀ k, waited? p master dots k = none := by
  induction dots generalizing i best with
  | nil => exact ⟨h, by simp [waited?]⟩
  | cons d ds ih =>
    rw [oldestFrom] at h
    cases hd : d.waitingAge? p master with
    | none =>
      rw [hd] at h
      obtain ⟨hbest, hall⟩ := ih h
      refine ⟨hbest, ?_⟩
      intro k
      cases k with
      | zero => simp [waited?, hd]
      | succ k => exact hall k
    | some age =>
      rw [hd] at h
      obtain ⟨hbest, -⟩ := ih h
      obtain ⟨l, c, hold⟩ := exists_older best i age
      rw [hold] at hbest
      cases hbest

/-! ## The oldest dot -/

theorem IsOldest.unique {k l a b : Nat} (hk : IsOldest p master dots k a)
    (hl : IsOldest p master dots l b) : k = l := by
  have hab : a = b := by
    have h₁ := hk.longest l b hl.waits
    have h₂ := hl.longest k a hk.waits
    omega
  rcases Nat.lt_trichotomy k l with h | h | h
  · have := hl.first k a h hk.waits; omega
  · exact h
  · have := hk.first l b h hl.waits; omega

theorem oldest?_eq_none_iff :
    oldest? p master dots = none ↔ ∀ k, waited? p master dots k = none := by
  unfold oldest?
  constructor
  · intro h
    exact (oldestFrom_eq_none (Option.map_eq_none_iff.mp h)).2
  · intro h
    cases hr : oldestFrom p master 0 none dots with
    | none => rfl
    | some r =>
      rcases oldestFrom_eq_some hr with ⟨hbest, -⟩ | ⟨k, -, hk, -⟩
      · cases hbest
      · have hwaits := hk.waits
        rw [h k] at hwaits
        cases hwaits

/-- The oldest dot is the first of those that have waited longest. -/
theorem oldest?_eq_some_iff {k : Nat} :
    oldest? p master dots = some k ↔ ∃ a, IsOldest p master dots k a := by
  have hsome : ∀ k, oldest? p master dots = some k → ∃ a, IsOldest p master dots k a := by
    intro k h
    unfold oldest? at h
    obtain ⟨⟨k', a⟩, hr, rfl⟩ := Option.map_eq_some_iff.mp h
    rcases oldestFrom_eq_some hr with ⟨hbest, -⟩ | ⟨k, rfl, hk, -⟩
    · cases hbest
    · exact ⟨a, by simpa using hk⟩
  constructor
  · exact hsome k
  · rintro ⟨a, ha⟩
    cases hr : oldest? p master dots with
    | none =>
      rw [oldest?_eq_none_iff] at hr
      have := ha.waits
      rw [hr k] at this
      cases this
    | some l =>
      obtain ⟨b, hb⟩ := hsome l hr
      rw [ha.unique hb]

/-- The dot that is found is there, and it waits at the position in the role. -/
theorem exists_of_oldest? {k : Nat} (h : oldest? p master dots = some k) :
    ∃ d m, dots[k]? = some d ∧ d.phase = .meet m ∧ d.pos = p ∧ m.master = master := by
  obtain ⟨a, hold⟩ := oldest?_eq_some_iff.mp h
  obtain ⟨d, m, hd, hm, hpos, hrole, -⟩ := waited?_eq_some_iff.mp hold.waits
  exact ⟨d, m, hd, hm, hpos, hrole⟩

end DotPaths.Meeting
