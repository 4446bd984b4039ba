import Mathlib.Data.List.Perm.Basic
import DotPaths.Proofs.Pairing
import DotPaths.Proofs.Progress

/-! # Contention for a cell

    Dots contend for a cell where several of them wait in one role.  A master looks
    for the dot that has waited longest, and in the middle of a round some of the
    waiting dots have counted the round already and others have not.  If any two that
    wait in one role differ by two rounds or more, this makes no difference.

    - `Uncontended`: at every cell there is one master at most and one other.
    - `Orderly`: at every cell there is one master at most, and the others have come
      one well after the other.  Where there is no contention this is so.
    - `pair?`: the two that are to meet at a cell, from what all dots chose.
-/

namespace DotPaths

/-! ## Waiting dots -/

namespace Dot

/-- Does the dot wait at the position in the role? -/
def waitsAt (p : Pos) (role : Bool) (d : Dot) : Bool :=
  (d.waitingAge? p role).isSome

/-- For how many turns the dot has waited. -/
def age (d : Dot) : Nat := (d.phase.meeting?.map Meeting.age).getD 0

theorem waitsAt_iff {p : Pos} {role : Bool} {d : Dot} :
    d.waitsAt p role = true ↔ ∃ m, d.phase = .meet m ∧ d.pos = p ∧ m.master = role := by
  unfold waitsAt
  rw [Option.isSome_iff_exists]
  constructor
  · intro ⟨a, ha⟩
    obtain ⟨m, hm, hpos, hrole, -⟩ := Meeting.waitingAge?_eq_some_iff.mp ha
    exact ⟨m, hm, hpos, hrole⟩
  · intro ⟨m, hm, hpos, hrole⟩
    exact ⟨m.age, Meeting.waitingAge?_eq_some_iff.mpr ⟨m, hm, hpos, hrole, rfl⟩⟩

theorem waitsAt_pos {p : Pos} {role : Bool} {d : Dot} (h : d.waitsAt p role = true) :
    d.pos = p := by
  obtain ⟨m, -, hpos, -⟩ := waitsAt_iff.mp h
  exact hpos

theorem age_of_meet {d : Dot} {m : Meeting} (h : d.phase = .meet m) : d.age = m.age := by
  simp [age, h, Phase.meeting?]

end Dot

section waiting
variable {p : Pos} {role : Bool} {dots : List Dot} {i : Nat} {a : Dot}

/-- Whoever waits has a number and an age. -/
theorem waited?_of_waitsAt (hi : dots[i]? = some a) (ha : a.waitsAt p role = true) :
    Meeting.waited? p role dots i = some a.age := by
  obtain ⟨m, hm, hpos, hrole⟩ := Dot.waitsAt_iff.mp ha
  exact Meeting.waited?_eq_some_iff.mpr ⟨a, m, hi, hm, hpos, hrole, (Dot.age_of_meet hm).symm⟩

theorem waitsAt_of_waited? {n : Nat} (h : Meeting.waited? p role dots i = some n) :
    ∃ a, dots[i]? = some a ∧ a.waitsAt p role = true ∧ a.age = n := by
  obtain ⟨a, m, hi, hm, hpos, hrole, hage⟩ := Meeting.waited?_eq_some_iff.mp h
  exact ⟨a, hi, Dot.waitsAt_iff.mpr ⟨m, hm, hpos, hrole⟩, (Dot.age_of_meet hm).trans hage⟩

end waiting

/-! ## Orderly queues -/

/-- The two dots do not wait as masters at the same cell; and if they wait there as
    others, one of them has waited two turns longer at least. -/
def Dot.Apart (a b : Dot) : Prop :=
  ¬ (a.waitsAt a.pos true = true ∧ b.waitsAt a.pos true = true) ∧
    (a.waitsAt a.pos false = true → b.waitsAt a.pos false = true →
      a.age + 2 ≤ b.age ∨ b.age + 2 ≤ a.age)

instance (a b : Dot) : Decidable (a.Apart b) := inferInstanceAs (Decidable (_ ∧ (_ → _ → _)))

theorem Dot.Apart.symm {a b : Dot} (h : a.Apart b) : b.Apart a := by
  constructor
  · rintro ⟨hb, ha⟩
    have hpos := waitsAt_pos ha
    rw [← hpos] at ha hb
    exact h.1 ⟨ha, hb⟩
  · intro hb ha
    have hpos := waitsAt_pos ha
    rw [← hpos] at ha hb
    exact (h.2 ha hb).symm

/-- Any two of the dots are apart. -/
def Orderly (dots : List Dot) : Prop := dots.Pairwise Dot.Apart

instance (dots : List Dot) : Decidable (Orderly dots) :=
  inferInstanceAs (Decidable (dots.Pairwise _))

/-- Any two of the dots on this cell are apart. -/
def OrderlyAt (p : Pos) (dots : List Dot) : Prop :=
  dots.Pairwise fun a b => a.pos = p → b.pos = p → a.Apart b

theorem Orderly.orderlyAt {dots : List Dot} (h : Orderly dots) (p : Pos) : OrderlyAt p dots :=
  h.imp fun hab _ _ => hab

theorem Orderly.perm {dots dots' : List Dot} (h : Orderly dots) (hperm : dots.Perm dots') :
    Orderly dots' :=
  (hperm.pairwise_iff fun hab => Dot.Apart.symm hab).mp h

/-- No two masters wait on the same cell, and no two others. -/
def Uncontended (dots : List Dot) : Prop :=
  ∀ p role, dots.countP (Dot.waitsAt p role) ≤ 1

/-- A dot waits only where it stands, so it is enough to look at the cells of
    the dots themselves. -/
theorem uncontended_iff {dots : List Dot} :
    Uncontended dots ↔ ∀ d ∈ dots, ∀ role, dots.countP (Dot.waitsAt d.pos role) ≤ 1 := by
  constructor
  · intro h d _ role
    exact h d.pos role
  · intro h p role
    by_cases hnone : dots.countP (Dot.waitsAt p role) = 0
    · omega
    · have hpos : 0 < dots.countP (Dot.waitsAt p role) := by omega
      obtain ⟨d, hd, hwaits⟩ := List.countP_pos_iff.mp hpos
      obtain ⟨m, -, rfl, -⟩ := Dot.waitsAt_iff.mp hwaits
      exact h d hd role

instance (dots : List Dot) : Decidable (Uncontended dots) :=
  decidable_of_iff _ uncontended_iff.symm

/-- Dots that do not contend are apart, for one of the two does not wait. -/
theorem Uncontended.orderly {dots : List Dot} (h : Uncontended dots) : Orderly dots := by
  induction dots with
  | nil => exact .nil
  | cons a dots ih =>
    have halone : ∀ b ∈ dots, ∀ role, a.waitsAt a.pos role = true →
        ¬ b.waitsAt a.pos role = true := by
      intro b hb role ha hwaits
      have hcount := h a.pos role
      rw [List.countP_cons, if_pos ha] at hcount
      have hpos := List.countP_pos_iff.mpr ⟨b, hb, hwaits⟩
      omega
    have hrest : Uncontended dots := by
      intro p role
      have hcount := h p role
      rw [List.countP_cons] at hcount
      omega
    refine .cons ?_ (ih hrest)
    intro b hb
    exact ⟨fun hboth => halone b hb true hboth.1 hboth.2,
      fun ha hwaits => absurd hwaits (halone b hb false ha)⟩

section
variable {p : Pos} {role : Bool} {dots dots' : List Dot} {i j : Nat} {a b o : Dot}

theorem OrderlyAt.apart (h : OrderlyAt p dots) (hij : i ≠ j) (hi : dots[i]? = some a)
    (hj : dots[j]? = some b) (ha : a.pos = p) (hb : b.pos = p) : a.Apart b := by
  obtain ⟨hlti, rfl⟩ := List.getElem?_eq_some_iff.mp hi
  obtain ⟨hltj, rfl⟩ := List.getElem?_eq_some_iff.mp hj
  have hall := List.pairwise_iff_getElem.mp h
  by_cases hlt : i < j
  · exact hall i j hlti hltj hlt ha hb
  · exact (hall j i hltj hlti (by omega) hb ha).symm

/-- There is one master at most. -/
theorem OrderlyAt.master_unique (h : OrderlyAt p dots) (hi : dots[i]? = some a)
    (hj : dots[j]? = some b) (ha : a.waitsAt p true = true) (hb : b.waitsAt p true = true) :
    i = j := by
  by_cases hij : i = j
  · exact hij
  · have hpos := Dot.waitsAt_pos ha
    have hapart := h.apart hij hi hj hpos (Dot.waitsAt_pos hb)
    rw [← hpos] at ha hb
    exact absurd ⟨ha, hb⟩ hapart.1

/-- Dots at different places of the list have waited for different times. -/
theorem OrderlyAt.spaced (h : OrderlyAt p dots) (hij : i ≠ j) (hi : dots[i]? = some a)
    (hj : dots[j]? = some b) (ha : a.waitsAt p false = true) (hb : b.waitsAt p false = true) :
    a.age + 2 ≤ b.age ∨ b.age + 2 ≤ a.age := by
  have hpos := Dot.waitsAt_pos ha
  have hapart := h.apart hij hi hj hpos (Dot.waitsAt_pos hb)
  rw [← hpos] at ha hb
  exact hapart.2 ha hb

/-- A dot that waits stands at one place of the list only. -/
theorem OrderlyAt.index_eq (h : OrderlyAt p dots) (hi : dots[i]? = some a) (hj : dots[j]? = some a)
    (ha : a.waitsAt p role = true) : i = j := by
  cases role with
  | true => exact h.master_unique hi hj ha ha
  | false =>
    by_cases hij : i = j
    · exact hij
    · have hspaced := h.spaced hij hi hj ha ha
      omega

/-! ## Who meets -/

/-- The dot that has waited longest at a position in a role. -/
def eldest? (p : Pos) (role : Bool) (dots : List Dot) : Option Dot :=
  (Meeting.oldest? p role dots).bind fun j => dots[j]?

/-- The dot waits at the position in the role, and any other one that does has come
    two turns later at least. -/
structure IsEldest (p : Pos) (role : Bool) (dots : List Dot) (o : Dot) : Prop where
  mem : o ∈ dots
  waits : o.waitsAt p role = true
  before : ∀ a ∈ dots, a.waitsAt p role = true → a = o ∨ a.age + 2 ≤ o.age

theorem IsEldest.unique (h : IsEldest p role dots a) (h' : IsEldest p role dots b) : a = b := by
  rcases h.before b h'.mem h'.waits with heq | hlt
  · exact heq.symm
  · rcases h'.before a h.mem h.waits with heq | hlt'
    · exact heq
    · omega

/-- The eldest is known by its age. -/
theorem IsEldest.eq_of_age (h : IsEldest p role dots o) (ha : a ∈ dots)
    (hwaits : a.waitsAt p role = true) (hage : o.age = a.age) : o = a := by
  rcases h.before a ha hwaits with heq | hlt
  · exact heq.symm
  · omega

theorem eldest?_eq_none_iff :
    eldest? p role dots = none ↔ ∀ a ∈ dots, a.waitsAt p role = false := by
  unfold eldest?
  constructor
  · intro h a ha
    cases hold : Meeting.oldest? p role dots with
    | none =>
      obtain ⟨i, hi⟩ := List.mem_iff_getElem?.mp ha
      have hnone := Meeting.oldest?_eq_none_iff.mp hold i
      cases hw : a.waitsAt p role with
      | false => rfl
      | true =>
        rw [waited?_of_waitsAt hi hw] at hnone
        cases hnone
    | some j =>
      obtain ⟨n, hn⟩ := Meeting.oldest?_eq_some_iff.mp hold
      obtain ⟨o, ho, -, -⟩ := waitsAt_of_waited? hn.waits
      simp [hold, ho] at h
  · intro h
    -- Whoever were found would wait there.
    have hnone : Meeting.oldest? p role dots = none := by
      apply Meeting.oldest?_eq_none_iff.mpr
      intro k
      cases hk : Meeting.waited? p role dots k with
      | none => rfl
      | some n =>
        obtain ⟨a, ha, hwaits, -⟩ := waitsAt_of_waited? hk
        rw [h a (List.mem_of_getElem? ha)] at hwaits
        cases hwaits
    rw [hnone]
    rfl

/-- Where somebody waits, there is an eldest. -/
theorem exists_eldest? (ha : a ∈ dots) (hwaits : a.waitsAt p role = true) :
    ∃ o, eldest? p role dots = some o := by
  cases hfound : eldest? p role dots with
  | some o => exact ⟨o, rfl⟩
  | none =>
    have hnobody := eldest?_eq_none_iff.mp hfound a ha
    rw [hwaits] at hnobody
    cases hnobody

/-- The only master is the eldest. -/
theorem OrderlyAt.isEldest_master (h : OrderlyAt p dots) (ha : a ∈ dots)
    (hwaits : a.waitsAt p true = true) : IsEldest p true dots a := by
  refine ⟨ha, hwaits, ?_⟩
  intro b hb hwaits'
  obtain ⟨i, hi⟩ := List.mem_iff_getElem?.mp ha
  obtain ⟨j, hj⟩ := List.mem_iff_getElem?.mp hb
  have hij := h.master_unique hi hj hwaits hwaits'
  subst hij
  exact .inl (Option.some.inj (hj.symm.trans hi))

theorem isEldest_of_eldest? (h : OrderlyAt p dots) (ho : eldest? p role dots = some o) :
    IsEldest p role dots o := by
  obtain ⟨j, hold, hj⟩ := Option.bind_eq_some_iff.mp ho
  obtain ⟨n, hn⟩ := Meeting.oldest?_eq_some_iff.mp hold
  obtain ⟨o', ho', hwaits, hage⟩ := waitsAt_of_waited? hn.waits
  cases hj.symm.trans ho'
  refine ⟨List.mem_of_getElem? hj, hwaits, ?_⟩
  intro a ha hw
  obtain ⟨i, hi⟩ := List.mem_iff_getElem?.mp ha
  by_cases hij : i = j
  · subst hij
    exact .inl (Option.some.inj (hi.symm.trans hj))
  · cases role with
    | true => exact absurd (h.master_unique hi hj hw hwaits) hij
    | false =>
      have hle := hn.longest i a.age (waited?_of_waitsAt hi hw)
      have hspaced := h.spaced hij hi hj hw hwaits
      right
      omega

theorem eldest?_eq_some_iff (h : OrderlyAt p dots) :
    eldest? p role dots = some o ↔ IsEldest p role dots o := by
  refine ⟨isEldest_of_eldest? h, ?_⟩
  intro ho
  obtain ⟨o', hfound⟩ := exists_eldest? ho.mem ho.waits
  rw [hfound, (isEldest_of_eldest? h hfound).unique ho]

/-- The master and the other dot that meet at a position, if there are two to meet. -/
def pair? (p : Pos) (dots : List Dot) : Option (Dot × Dot) :=
  (eldest? p true dots).bind fun a => (eldest? p false dots).map fun o => (a, o)

theorem pair?_eq_some_iff :
    pair? p dots = some (a, o) ↔ eldest? p true dots = some a ∧ eldest? p false dots = some o := by
  unfold pair?
  rw [Option.bind_eq_some_iff]
  constructor
  · rintro ⟨a', ha, h⟩
    obtain ⟨o', ho, heq⟩ := Option.map_eq_some_iff.mp h
    cases heq
    exact ⟨ha, ho⟩
  · rintro ⟨ha, ho⟩
    exact ⟨a, ha, by rw [ho]; rfl⟩

/-- Among those that wait for a master, the one that meets it is known by its age. -/
theorem other_eq_iff_age (horder : OrderlyAt p dots) (hpair : pair? p dots = some (a, o))
    (hb : b ∈ dots) (hwaits : b.waitsAt p false = true) : o = b ↔ o.age = b.age := by
  have heldest := isEldest_of_eldest? horder (pair?_eq_some_iff.mp hpair).2
  constructor
  · intro heq
    rw [heq]
  · exact heldest.eq_of_age hb hwaits

/-- If somebody waits and no two are to meet, nobody waits in the other role. -/
theorem waitsAt_of_pair?_eq_none (hnone : pair? p dots = none) (ha : a ∈ dots)
    (hwaits : a.waitsAt p role = true) : ∀ b ∈ dots, b.waitsAt p (!role) = false := by
  obtain ⟨a', ha'⟩ := exists_eldest? ha hwaits
  apply eldest?_eq_none_iff.mp
  apply Option.eq_none_iff_forall_ne_some.mpr
  intro b hb
  cases role with
  | true =>
    rw [pair?_eq_some_iff.mpr ⟨ha', hb⟩] at hnone
    cases hnone
  | false =>
    rw [pair?_eq_some_iff.mpr ⟨hb, ha'⟩] at hnone
    cases hnone

/-- Two lists of dots in which the same ones wait at the position. -/
theorem pair?_eq_of_waiting (horder : OrderlyAt p dots) (horder' : OrderlyAt p dots')
    (h : ∀ role d, d.waitsAt p role = true → (d ∈ dots ↔ d ∈ dots')) :
    pair? p dots = pair? p dots' := by
  have heldest : ∀ role, eldest? p role dots = eldest? p role dots' := by
    intro role
    apply Option.ext
    intro o
    rw [eldest?_eq_some_iff horder, eldest?_eq_some_iff horder']
    constructor
    · intro ho
      refine ⟨(h role o ho.waits).mp ho.mem, ho.waits, ?_⟩
      intro a ha hwaits
      exact ho.before a ((h role a hwaits).mpr ha) hwaits
    · intro ho
      refine ⟨(h role o ho.waits).mpr ho.mem, ho.waits, ?_⟩
      intro a ha hwaits
      exact ho.before a ((h role a hwaits).mp ha) hwaits
  unfold pair?
  rw [heldest true, heldest false]

theorem pair?_perm (horder : Orderly dots) (hperm : dots.Perm dots') :
    pair? p dots = pair? p dots' :=
  pair?_eq_of_waiting (horder.orderlyAt p) ((horder.perm hperm).orderlyAt p)
    fun _ _ _ => hperm.mem_iff

end

end DotPaths
