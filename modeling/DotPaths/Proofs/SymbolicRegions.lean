import DotPaths.Proofs.Lists
import DotPaths.Proofs.Regions
import DotPaths.Proofs.SymbolicTurns

/-! # Symbolic runs of a region

    What goes on in a region can be tried out on its own, with numbers that stand in
    for the real ones.  In contrast to a symbolic run of all dots there is no console,
    and the dots that go out of a library are left to those outside.

    - `Dot.Represents`: a symbolic dot models one whose id goes with what it
      remembers.
    - `Symbolic.turns?`: what dots choose in a tick, and what is asked about them.
    - `Symbolic.turns_sound`: what follows for the dots that are represented.
-/

namespace DotPaths

open Symbolic (asks)

/-! ## Symbolic dots with ids -/

/-- The dot `d` models `e`, and the id of `e` is one that goes with what it remembers. -/
structure Dot.Represents (ι : List Pos → Number → Prop) (ρ : Int → Int) (d e : Dot) : Prop where
  models : d.Models ρ e
  id : ι e.stack e.id

namespace Dot.Models

variable {ρ : Int → Int} {w : World} {d e : Dot}

theorem waitsAt (h : d.Models ρ e) (p : Pos) (role : Bool) : e.waitsAt p role = d.waitsAt p role := by
  apply Bool.eq_iff_iff.mpr
  rw [waitsAt_iff, waitsAt_iff, h.phase, h.pos]

theorem age (h : d.Models ρ e) : e.age = d.age := by
  unfold Dot.age
  rw [h.phase]

theorem comesOut (h : d.Models ρ e) : e.comesOut w = d.comesOut w := by
  unfold Dot.comesOut Dot.passage? Dot.travelsOver
  rw [h.pos, h.phase, h.dir]

theorem isIn (h : d.Models ρ e) (R : Region) : e.isIn R = d.isIn R := by
  unfold Dot.isIn Dot.isDead
  rw [h.pos, h.phase]

theorem apart {d' e' : Dot} (h : d.Models ρ e) (h' : d'.Models ρ e') (hapart : d.Apart d') :
    e.Apart e' := by
  unfold Dot.Apart
  rw [h.pos, h.age, h'.age, h.waitsAt, h'.waitsAt, h.waitsAt, h'.waitsAt]
  exact hapart

end Dot.Models

section lists
variable {ρ : Int → Int} {dots actual : List Dot}

theorem orderly_models (h : List.Forall₂ (Dot.Models ρ) dots actual) (horder : Orderly dots) :
    Orderly actual := by
  induction h with
  | nil => exact .nil
  | cons hde hrest ih =>
    obtain ⟨hapart, horder⟩ := List.pairwise_cons.mp horder
    refine List.pairwise_cons.mpr ⟨?_, ih horder⟩
    intro e' he'
    obtain ⟨d', hd', hde'⟩ := forall₂_mem_right hrest e' he'
    exact hde.apart hde' (hapart d' hd')

theorem eldest?_models (h : List.Forall₂ (Dot.Models ρ) dots actual) (p : Pos) (role : Bool) :
    Option.Rel (Dot.Models ρ) (eldest? p role dots) (eldest? p role actual) := by
  unfold eldest?
  rw [Symbolic.oldest?_eq h]
  cases Meeting.oldest? p role dots with
  | none => exact .none
  | some j =>
    show Option.Rel (Dot.Models ρ) dots[j]? actual[j]?
    cases hj : dots[j]? with
    | none =>
      rw [List.getElem?_eq_none_iff, h.length_eq, ← List.getElem?_eq_none_iff] at hj
      rw [hj]
      exact .none
    | some d =>
      obtain ⟨e, he, hde⟩ := forall₂_getElem? h hj
      rw [he]
      exact .some hde

/-- Who meets among the dots that are modelled. -/
theorem pair?_models {p : Pos} {a o : Dot} (h : List.Forall₂ (Dot.Models ρ) dots actual)
    (hpair : pair? p dots = some (a, o)) :
    ∃ a' o', pair? p actual = some (a', o') ∧ a.Models ρ a' ∧ o.Models ρ o' := by
  obtain ⟨ha, ho⟩ := pair?_eq_some_iff.mp hpair
  have hra := eldest?_models h p true
  have hro := eldest?_models h p false
  rw [ha] at hra
  rw [ho] at hro
  generalize hfa : eldest? p true actual = fa at hra
  generalize hfo : eldest? p false actual = fo at hro
  cases hra with
  | some hea =>
    cases hro with
    | some heo => exact ⟨_, _, pair?_eq_some_iff.mpr ⟨hfa, hfo⟩, hea, heo⟩

theorem pair?_models_none {p : Pos} (h : List.Forall₂ (Dot.Models ρ) dots actual)
    (hpair : pair? p dots = none) : pair? p actual = none := by
  have hra := eldest?_models h p true
  have hro := eldest?_models h p false
  unfold pair? at hpair ⊢
  generalize eldest? p true dots = fa at hra hpair
  generalize eldest? p false dots = fo at hro hpair
  generalize eldest? p true actual = ga at hra
  generalize eldest? p false actual = go at hro
  cases hra with
  | none => rfl
  | some _ =>
    cases hro with
    | none => rfl
    | some _ => cases hpair

end lists

/-! ## What a dot keeps -/

namespace Dot

variable {w : World} {c : Cell} {d : Dot}

theorem travelDeed_id : (d.travelDeed w c).Ensures fun d' _ => d'.id = d.id :=
  travelDeed_keeps.mono fun _ _ h => h.2.1

/-- Whoever takes up a value keeps the id. -/
theorem valueDeed_id {e : Entry} :
    (d.entryDeed c e d.value (fun d n => { d with value := n }) .value).Ensures
      fun d' _ => d'.id = d.id :=
  entryDeed_keeps (fun _ _ _ => rfl) (fun _ => rfl)

theorem outcome_keeps {m : Meeting} {a : Number} {r : Dot} (hr : m.outcome c d a = .ok r)
    (hvalue : m.onId = false) : r.id = d.id ∧ r.stack = d.stack := by
  rcases Meeting.outcome_cases hr with ⟨-, rfl⟩ | ⟨-, -, b, -, rfl⟩
  · split <;> exact ⟨rfl, rfl⟩
  · simp [setStake, hvalue]

end Dot

namespace Dot.Represents

variable {ι : List Pos → Number → Prop} {ρ : Int → Int} {w : World} {d e : Dot}

theorem rephase (h : d.Represents ι ρ e) (phase : Phase) :
    Represents ι ρ { d with phase := phase } { e with phase := phase } :=
  ⟨h.models.rephase phase, h.id⟩

theorem move (h : d.Represents ι ρ e) : d.move.Represents ι ρ e.move :=
  ⟨h.models.move, h.id⟩

theorem settled (h : d.Represents ι ρ e) (w : World) :
    (d.settled w).Represents ι ρ (e.settled w) := by
  refine ⟨h.models.settled w, ?_⟩
  rw [Dot.settled_keeps (f := fun e => ι e.stack e.id) w rfl]
  exact h.id

/-- A copy remembers the same, and its id is the same or zero. -/
theorem copies (hι : ∀ stack a, ι stack a → ι stack a.orZero) (h : d.Represents ι ρ e) (w : World) :
    List.Forall₂ (Represents ι ρ) (d.copies w) (e.copies w) := by
  unfold Dot.copies
  rw [h.models.phase, h.models.pos]
  split
  · unfold Dot.branches
    rw [h.models.pos, h.models.dir, List.forall₂_map_left_iff, List.forall₂_map_right_iff]
    exact List.forall₂_same.mpr fun dir _ => ⟨h.models.branch dir, hι _ _ h.id⟩
  · exact .nil

end Dot.Represents

namespace Symbolic

/-! ## Turns -/

/-- What is asked in the turn of a dot, from what all chose.  The trial gives up
    when the dot prints, or when it goes into another library. -/
def asked (w : World) (dots : List Dot) (d : Dot) : Option (List Query) :=
  if d.comesOut w then some []
  else
    match w.cell? d.pos with
    | none => some []
    | some c =>
      match d.phase.meeting? with
      | none =>
        (d.deed w c).result?.bind fun d' =>
          if d'.stack = d.stack ∧ d.phase.isPrinting = false then asks d c else none
      | some m =>
        match pair? d.pos dots with
        | none => some []
        | some (_, o) => if m.master then (outcome c d m o).map Prod.snd else some []

section turns
variable {ι : List Pos → Number → Prop} {ρ : Int → Int} {w : World} {c : Cell} {d e : Dot}
  {dots actual : List Dot} {qs : List Query}

/-- A dot that neither waits nor prints does the same as its symbolic one, and keeps its
    id. -/
theorem moving_represents {d' : Dot} (h : d.Represents ι ρ e)
    (hresult : (d.deed w c).result? = some d')
    (hstack : d'.stack = d.stack) (hplain : d.phase.isPrinting = false)
    (hasks : asks d c = some qs) (hholds : ∀ q ∈ qs, q.Holds ρ) :
    (e.deed w c).isSilent = true ∧
      ∃ e', (e.deed w c).result? = some e' ∧ d'.Represents ι ρ e' := by
  obtain ⟨new, hlead⟩ : ∃ new, (d.deed w c).lead? = some (d', new) := by
    rcases Deed.result?_eq_some hresult with heq | ⟨new, heq⟩
    · exact ⟨[], by rw [heq]; rfl⟩
    · exact ⟨new, by rw [heq]; rfl⟩
  have hmodels := deed_models h.models hasks hholds hlead
  -- In these phases nothing is printed, and the deed keeps the id.
  obtain ⟨hquiet, hid⟩ : printed ρ qs = [] ∧ (e.deed w c).Ensures fun e' _ => e'.id = e.id := by
    have hphase := h.models.phase
    unfold Dot.deed
    cases hd : d.phase with
    | travel =>
      rw [hd] at hphase
      simp only [asks, hd, Option.some.injEq] at hasks
      rw [hphase, ← hasks]
      exact ⟨rfl, Dot.travelDeed_id⟩
    | dead =>
      rw [hd] at hphase
      simp only [asks, hd, Option.some.injEq] at hasks
      rw [hphase, ← hasks]
      exact ⟨rfl, rfl⟩
    | value x =>
      rw [hd] at hphase
      rw [hphase]
      refine ⟨?_, Dot.valueDeed_id⟩
      simp only [asks, hd] at hasks
      split at hasks
      · cases hasks
        rfl
      · split at hasks
        · cases hasks
        · obtain ⟨k, -, rfl⟩ := Option.map_eq_some_iff.mp hasks
          rfl
    | print p =>
      rw [hd] at hplain
      cases hplain
    | _ =>
      simp only [asks, hd] at hasks
      cases hasks
  rw [hquiet] at hmodels
  generalize hdeed : e.deed w c = deed at hmodels hid
  cases hmodels with
  | @become _ e' hde' =>
    refine ⟨rfl, e', rfl, hde', ?_⟩
    rw [hde'.stack, hstack, ← h.models.stack, hid]
    exact h.id
  | @branch _ e' _ new' hde' _ =>
    refine ⟨rfl, e', rfl, hde', ?_⟩
    have hid : e'.id = e.id := hid
    rw [hde'.stack, hstack, ← h.models.stack, hid]
    exact h.id

/-- The turn of a master that meets another dot. -/
theorem meeting_represents {m : Meeting} {o o' : Dot} (h : d.Represents ι ρ e) (ho : o.Models ρ o')
    (hr : (outcome c d m o).map Prod.snd = some qs) (hholds : ∀ q ∈ qs, q.Holds ρ) :
    ∃ r r', m.outcome c d o.offer = .ok r ∧ m.outcome c e o'.offer = .ok r' ∧
      r.Represents ι ρ r' := by
  obtain ⟨⟨r, qs'⟩, hout, rfl⟩ := Option.map_eq_some_iff.mp hr
  obtain ⟨r', hr', hrr', -⟩ := outcome_sound h.models ho hout hholds
  -- The trial says what the meeting is for, and that it is not for ids.
  obtain ⟨hvalue, hok⟩ : m.onId = false ∧ m.outcome c d o.offer = .ok r := by
    obtain ⟨k, hk, -⟩ := ho.value
    obtain ⟨n, hn, -⟩ := h.models.value
    unfold outcome at hout
    cases hphase : o.phase.meeting? with
    | none => simp [hphase] at hout
    | some m' =>
      simp only [hphase, hn, hk, Number.int?] at hout
      split at hout
      · cases hout
      · next hvalues =>
        obtain ⟨hmine, htheirs⟩ : m.onId = false ∧ m'.onId = false := by simpa using hvalues
        have hoffer : o.offer = .int k := by
          unfold Dot.offer
          rw [hphase]
          simp [Dot.stake, htheirs, hk]
        refine ⟨hmine, ?_⟩
        rw [hoffer]
        cases hok : m.outcome c d (.int k) with
        | error f =>
          rw [hok] at hout
          cases hout
        | ok r₀ =>
          simp only [hok, Except.toOption, Option.bind_some] at hout
          split at hout
          · cases hout
            rfl
          · obtain ⟨v, -, hpair⟩ := Option.map_eq_some_iff.mp hout
            cases hpair
            rfl
  obtain ⟨hid, hstack⟩ := Dot.outcome_keeps hr' hvalue
  exact ⟨r, r', hok, hr', hrr', by rw [hid, hstack]; exact h.id⟩

/-- The round makes of a dot that waits what it makes of its symbolic one. -/
theorem waiting_represents {m : Meeting} (hdots : List.Forall₂ (Dot.Models ρ) dots actual)
    (horder : Orderly dots) (hd : d ∈ dots) (he : e ∈ actual) (h : d.Represents ι ρ e)
    (hc : w.cell? d.pos = some c) (hm : d.phase = .meet m)
    (hasked : ∀ a o, pair? d.pos dots = some (a, o) → m.master = true →
      (outcome c d m o).map Prod.snd = some qs) (hholds : ∀ q ∈ qs, q.Holds ρ) :
    ∃ d' e', d.afterRound? w dots = some d' ∧ e.afterRound? w actual = some e' ∧
      d'.Represents ι ρ e' := by
  have hc' := hc
  rw [← h.models.pos] at hc'
  have hm' := h.models.phase.trans hm
  cases hpair : pair? d.pos dots with
  | none =>
    have hpair' := pair?_models_none hdots hpair
    rw [← h.models.pos] at hpair'
    exact ⟨_, _, Dot.afterRound?_unpaired hc hm hpair, Dot.afterRound?_unpaired hc' hm' hpair',
      h.rephase _⟩
  | some q =>
    obtain ⟨a, o⟩ := q
    obtain ⟨a', o', hpair', -, hoo'⟩ := pair?_models hdots hpair
    rw [← h.models.pos] at hpair'
    cases hmaster : m.master with
    | true =>
      obtain ⟨r, r', hr, hr', hrepr⟩ := meeting_represents h hoo' (hasked a o hpair hmaster) hholds
      refine ⟨_, _, ?_, ?_, ((hrepr.rephase .travel).move).settled w⟩
      · rw [Dot.afterRound?_master hc hm hmaster hpair, hr]
        rfl
      · rw [Dot.afterRound?_master hc' hm' hmaster hpair', hr']
        rfl
    | false =>
      -- The others are told apart by their ages, which are those of the symbolic ones.
      have hiff : o' = e ↔ o = d := by
        rw [other_eq_iff_age ((orderly_models hdots horder).orderlyAt _) hpair' he
            (Dot.waitsAt_iff.mpr ⟨m, hm', rfl, hmaster⟩),
          other_eq_iff_age (horder.orderlyAt _) hpair hd (Dot.waitsAt_iff.mpr ⟨m, hm, rfl, hmaster⟩),
          hoo'.age, h.models.age]
      by_cases heq : o = d
      · obtain rfl := hiff.mpr heq
        subst heq
        exact ⟨_, _, Dot.afterRound?_other hc hm hmaster hpair,
          Dot.afterRound?_other hc' hm' hmaster hpair', h.rephase .dead⟩
      · exact ⟨_, _, Dot.afterRound?_behind hc hm hmaster hpair heq,
          Dot.afterRound?_behind hc' hm' hmaster hpair' (mt hiff.mp heq), h.rephase _⟩

/-- The round makes of a dot what it makes of its symbolic one. -/
theorem afterRound?_represents (hdots : List.Forall₂ (Dot.Models ρ) dots actual)
    (horder : Orderly dots)
    (hd : d ∈ dots) (he : e ∈ actual) (h : d.Represents ι ρ e) (hstays : d.comesOut w = false)
    (hasked : asked w dots d = some qs) (hholds : ∀ q ∈ qs, q.Holds ρ) :
    e.isSilent w = true ∧
      ∃ d' e', d.afterRound? w dots = some d' ∧ e.afterRound? w actual = some e' ∧
        d'.Represents ι ρ e' := by
  unfold asked at hasked
  rw [hstays, if_neg Bool.false_ne_true] at hasked
  cases hc : w.cell? d.pos with
  | none =>
    have hc' := hc
    rw [← h.models.pos] at hc'
    exact ⟨by simp [Dot.isSilent, hc'], d.die, e.die, Dot.afterRound?_outside hc,
      Dot.afterRound?_outside hc', h.rephase .dead⟩
  | some c =>
    have hc' := hc
    rw [← h.models.pos] at hc'
    have hsilent : e.isSilent w = (e.deed w c).isSilent := by simp [Dot.isSilent, hc']
    rw [hc] at hasked
    dsimp only at hasked
    rw [hsilent]
    cases hm : d.phase.meeting? with
    | none =>
      rw [hm] at hasked
      obtain ⟨d', hresult, hasked⟩ := Option.bind_eq_some_iff.mp hasked
      split at hasked
      · next hkeeps =>
        obtain ⟨hquiet, e', hresult', hrepr⟩ :=
          moving_represents h hresult hkeeps.1 hkeeps.2 hasked hholds
        have hne : ∀ m, d.phase ≠ .meet m := by
          intro m hmeet
          rw [hmeet] at hm
          cases hm
        have hne' : ∀ m, e.phase ≠ .meet m := by
          rw [h.models.phase]
          exact hne
        refine ⟨hquiet, d'.settled w, e'.settled w, ?_, ?_, hrepr.settled w⟩
        · rw [Dot.afterRound?_alone hc hne, hresult, Option.map_some]
        · rw [Dot.afterRound?_alone hc' hne', hresult', Option.map_some]
      · cases hasked
    | some m =>
      have hmeet := Phase.eq_meet_of_meeting? hm
      refine ⟨by simp [Dot.deed, h.models.phase, hmeet, Deed.isSilent], ?_⟩
      refine waiting_represents hdots horder hd he h hc hmeet ?_ hholds
      intro a o hpair hmaster
      simpa [hm, hpair, hmaster] using hasked

/-! ## Ticks -/

theorem remains_represents {R : Region} (hι : ∀ stack a, ι stack a → ι stack a.orZero)
    (hdots : List.Forall₂ (Dot.Models ρ) dots actual) (horder : Orderly dots) (hd : d ∈ dots)
    (he : e ∈ actual) (h : d.Represents ι ρ e) (hstays : d.comesOut w = false)
    (hasked : asked w dots d = some qs) (hholds : ∀ q ∈ qs, q.Holds ρ) :
    List.Forall₂ (Dot.Represents ι ρ) (d.remains w R dots) (e.remains w R actual) := by
  obtain ⟨-, d', e', hd', he', hrepr⟩ :=
    afterRound?_represents hdots horder hd he h hstays hasked hholds
  unfold Dot.remains
  rw [hd', he']
  exact forall₂_filter (.cons hrepr (h.copies hι w)) fun _ _ hxy => hxy.models.isIn R

/-- What a tick leaves of the dots that are represented. -/
theorem nextInside_represents {R : Region} (hι : ∀ stack a, ι stack a → ι stack a.orZero)
    (hrepr : List.Forall₂ (Dot.Represents ι ρ) dots actual) (horder : Orderly dots)
    (hasked : ∀ d ∈ dots, ∃ qs, asked w dots d = some qs ∧ ∀ q ∈ qs, q.Holds ρ) :
    List.Forall₂ (Dot.Represents ι ρ) (nextInside w R dots) (nextInside w R actual) := by
  have hdots : List.Forall₂ (Dot.Models ρ) dots actual := hrepr.imp fun _ _ h => h.models
  have hfilter : List.Forall₂ (Dot.Represents ι ρ) (dots.filter fun d => !d.comesOut w)
      (actual.filter fun d => !d.comesOut w) := by
    refine forall₂_filter hrepr ?_
    intro x y hxy
    rw [hxy.models.comesOut]
  unfold nextInside
  refine forall₂_flatMap hfilter ?_
  intro d hd e he h
  obtain ⟨hd, hstays⟩ := List.mem_filter.mp hd
  obtain ⟨qs, hqs, hholds⟩ := hasked d hd
  exact remains_represents hι hdots horder hd (List.mem_of_mem_filter he) h (by simpa using hstays)
    hqs hholds

theorem silent_represents (hrepr : List.Forall₂ (Dot.Represents ι ρ) dots actual)
    (horder : Orderly dots)
    (hasked : ∀ d ∈ dots, ∃ qs, asked w dots d = some qs ∧ ∀ q ∈ qs, q.Holds ρ) :
    ∀ e ∈ actual, e.isSilent w = true := by
  intro e he
  obtain ⟨d, hd, h⟩ := forall₂_mem_right hrepr e he
  by_cases hout : d.comesOut w = true
  · apply Dot.isSilent_of_comesOut
    rw [h.models.comesOut]
    exact hout
  · obtain ⟨qs, hqs, hholds⟩ := hasked d hd
    exact (afterRound?_represents (hrepr.imp fun _ _ h => h.models) horder hd he h
      (by simpa using hout) hqs hholds).1

end turns

/-- What is asked in the turns of some of the dots. -/
def askedAll (w : World) (dots : List Dot) : List Dot → Option (List Query)
  | [] => some []
  | d :: ds => (asked w dots d).bind fun qs => (askedAll w dots ds).map (qs ++ ·)

theorem asked_of_askedAll {w : World} {dots ds : List Dot} {qs : List Query}
    (h : askedAll w dots ds = some qs) :
    ∀ d ∈ ds, ∃ qs', asked w dots d = some qs' ∧ ∀ q ∈ qs', q ∈ qs := by
  induction ds generalizing qs with
  | nil => exact fun _ hd => nomatch hd
  | cons d₀ ds ih =>
    unfold askedAll at h
    obtain ⟨qs₀, hqs₀, h⟩ := Option.bind_eq_some_iff.mp h
    obtain ⟨qs₁, hqs₁, rfl⟩ := Option.map_eq_some_iff.mp h
    intro d hd
    rcases List.mem_cons.mp hd with rfl | hd
    · exact ⟨qs₀, hqs₀, fun q hq => List.mem_append_left _ hq⟩
    · obtain ⟨qs', hqs', hmem⟩ := ih hqs₁ d hd
      exact ⟨qs', hqs', fun q hq => List.mem_append_right _ (hmem q hq)⟩

/-- What the dots choose in a tick, and what is asked in their turns.  The trial
    gives up if they are not orderly. -/
def turns? (w : World) (dots : List Dot) : Option (List Dot × List Query) :=
  (chooseAll w dots).bind fun chosen =>
    if Orderly chosen then (askedAll w chosen chosen).map fun qs => (chosen, qs) else none

end Symbolic

/-! ## Steps -/

/-- The dots choose so.  None is in the way of another, and none needs the console. -/
structure Turned (w : World) (dots ready : List Dot) : Prop where
  chooses : List.Forall₂ (fun d d' : Dot => d.chosen w = .ok d') dots ready
  orderly : Orderly ready
  silent : ∀ d ∈ ready, d.isSilent w = true

namespace Symbolic

variable {ι : List Pos → Number → Prop} {ρ : Int → Int} {w : World} {R : Region}
  {dots chosen actual : List Dot} {qs : List Query}

theorem choose_represents {d d' e : Dot} (h : d.Represents ι ρ e) (hd : choose w d = some d') :
    ∃ e', e.chosen w = .ok e' ∧ d'.Represents ι ρ e' := by
  obtain ⟨e', he', hmodels⟩ := choose_sound h.models hd
  refine ⟨e', he', hmodels, ?_⟩
  -- Choosing changes the phase only.
  rcases Dot.chosen_ok he' with rfl | ⟨_, _, -, -, -, rfl⟩
  · exact h.id
  · exact h.id

/-- The dots that are represented choose as the symbolic ones do, and what the tick
    leaves of them is represented by what it leaves of those. -/
theorem turns_sound (hι : ∀ stack a, ι stack a → ι stack a.orZero)
    (hturns : turns? w dots = some (chosen, qs)) (hholds : ∀ q ∈ qs, q.Holds ρ)
    (h : List.Forall₂ (Dot.Represents ι ρ) dots actual) :
    ∃ ready, Turned w actual ready ∧ List.Forall₂ (Dot.Represents ι ρ) chosen ready ∧
      List.Forall₂ (Dot.Represents ι ρ) (nextInside w R chosen) (nextInside w R ready) := by
  unfold turns? at hturns
  obtain ⟨chosen₀, hchoose, hturns⟩ := Option.bind_eq_some_iff.mp hturns
  split at hturns
  · next horder =>
    obtain ⟨qs₀, hqs₀, hpair⟩ := Option.map_eq_some_iff.mp hturns
    cases hpair
    obtain ⟨ready, hready, hrepr⟩ := chooseAll_sound choose_represents hchoose h
    have hasked : ∀ d ∈ chosen, ∃ qs, asked w chosen d = some qs ∧ ∀ q ∈ qs, q.Holds ρ := by
      intro d hd
      obtain ⟨qs', hqs', hmem⟩ := asked_of_askedAll hqs₀ d hd
      exact ⟨qs', hqs', fun q hq => hholds q (hmem q hq)⟩
    have hmodels : List.Forall₂ (Dot.Models ρ) chosen ready := hrepr.imp fun _ _ h => h.models
    exact ⟨ready, ⟨hready, orderly_models hmodels horder, silent_represents hrepr horder hasked⟩,
      hrepr, nextInside_represents hι hrepr horder hasked⟩
  · cases hturns

end Symbolic

/-! ## Symbolic dots with their numbers -/

/-- The symbolic dot with the number that its value stands for. -/
def Dot.valued (ρ : Int → Int) (d : Dot) : Dot :=
  { d with value := match d.value with
      | .int n => .int (ρ n)
      | a => a }

theorem represents_valued_iff {ι : List Pos → Number → Prop} {ρ : Int → Int} {d e : Dot} :
    (d.valued ρ).Represents ι id e ↔ d.Represents ι ρ e := by
  have hvalue : (∃ n, (d.valued ρ).value = .int n ∧ e.value = .int (id n)) ↔
      ∃ n, d.value = .int n ∧ e.value = .int (ρ n) := by
    unfold Dot.valued
    cases d.value with
    | int n => simp
    | real x => simp
    | complex re im => simp
  constructor
  · intro h
    exact ⟨⟨h.models.pos, h.models.dir, h.models.phase, h.models.stack,
      hvalue.mp h.models.value⟩, h.id⟩
  · intro h
    exact ⟨⟨h.models.pos, h.models.dir, h.models.phase, h.models.stack,
      hvalue.mpr h.models.value⟩, h.id⟩

theorem forall₂_valued_iff {ι : List Pos → Number → Prop} {ρ : Int → Int} {dots actual : List Dot} :
    List.Forall₂ (Dot.Represents ι id) (dots.map (Dot.valued ρ)) actual ↔
      List.Forall₂ (Dot.Represents ι ρ) dots actual := by
  rw [List.forall₂_map_left_iff]
  constructor
  · exact List.Forall₂.imp fun _ _ h => represents_valued_iff.mp h
  · exact List.Forall₂.imp fun _ _ h => represents_valued_iff.mpr h

/-- The symbolic dot, whatever cell its dot was made at. -/
def Dot.bare (d : Dot) : Dot := { d with spawn := ⟨0, 0⟩ }

theorem represents_bare_iff {ι : List Pos → Number → Prop} {ρ : Int → Int} {d e : Dot} :
    d.bare.Represents ι ρ e ↔ d.Represents ι ρ e := by
  constructor
  · intro h
    exact ⟨⟨h.models.pos, h.models.dir, h.models.phase, h.models.stack, h.models.value⟩, h.id⟩
  · intro h
    exact ⟨⟨h.models.pos, h.models.dir, h.models.phase, h.models.stack, h.models.value⟩, h.id⟩

theorem forall₂_bare_iff {ι : List Pos → Number → Prop} {ρ : Int → Int} {dots actual : List Dot} :
    List.Forall₂ (Dot.Represents ι ρ) (dots.map Dot.bare) actual ↔
      List.Forall₂ (Dot.Represents ι ρ) dots actual := by
  rw [List.forall₂_map_left_iff]
  constructor
  · exact List.Forall₂.imp fun _ _ h => represents_bare_iff.mp h
  · exact List.Forall₂.imp fun _ _ h => represents_bare_iff.mpr h

/-- How a tick goes in the region for dots that `X` represents.  Those that are left
    are represented by `N`, and those that go out by `O`.  All who wait do so at positions
    with the property `W`. -/
structure Step (w : World) (R : Region) (ι : List Pos → Number → Prop) (X N O : List Dot)
    (W : Pos → Prop) : Prop where
  within : ∀ x ∈ X, R x.pos = true
  turns : ∀ F, List.Forall₂ (Dot.Represents ι id) X F → ∃ C N', Turned w F C ∧
    (∀ d ∈ C, d.phase.isWaiting = true → W d.pos) ∧ List.Forall₂ (Dot.Represents ι id) N N' ∧
      (nextInside w R C).Perm N' ∧ List.Forall₂ (Dot.Represents ι id) O (C.filter (Dot.comesOut w))

namespace Step

variable {w : World} {R : Region} {ι : List Pos → Number → Prop} {X X' N N' O O' C : List Dot}
  {W W' : Pos → Prop} {ρ : Int → Int} {qs : List Query}

/-- Steps that have been computed. -/
theorem of_turns (hι : ∀ stack a, ι stack a → ι stack a.orZero)
    (hturns : Symbolic.turns? w X = some (C, qs)) (hholds : ∀ q ∈ qs, q.Holds ρ)
    (hwithin : ∀ x ∈ X, R x.pos = true) (hW : ∀ d ∈ C, d.phase.isWaiting = true → W d.pos) :
    Step w R ι (X.map (Dot.valued ρ)) ((nextInside w R C).map (Dot.valued ρ))
      ((C.filter (Dot.comesOut w)).map (Dot.valued ρ)) W where
  within := by
    intro x hx
    obtain ⟨x₀, hx₀, rfl⟩ := List.mem_map.mp hx
    exact hwithin x₀ hx₀
  turns := by
    intro F hF
    obtain ⟨ready, hturned, hrepr, hnext⟩ :=
      Symbolic.turns_sound (R := R) hι hturns hholds (forall₂_valued_iff.mp hF)
    refine ⟨ready, _, hturned, ?_, forall₂_valued_iff.mpr hnext, .refl _, ?_⟩
    · intro e he hwaits
      obtain ⟨d, hd, hde⟩ := forall₂_mem_right hrepr e he
      rw [hde.models.pos]
      rw [hde.models.phase] at hwaits
      exact hW d hd hwaits
    · exact forall₂_valued_iff.mpr (forall₂_filter hrepr fun _ _ hxy => hxy.models.comesOut)

/-- Dots that wait at different positions go on side by side. -/
theorem append (h : Step w R ι X N O W) (h' : Step w R ι X' N' O' W')
    (hapart : ∀ p, W p → ¬ W' p) :
    Step w R ι (X ++ X') (N ++ N') (O ++ O') fun p => W p ∨ W' p where
  within := by
    intro x hx
    rcases List.mem_append.mp hx with hx | hx
    · exact h.within x hx
    · exact h'.within x hx
  turns := by
    intro F hF
    obtain ⟨F₁, F₂, rfl, hF₁, hF₂⟩ := forall₂_append_left hF
    obtain ⟨C₁, N₁, hturned₁, hW₁, hN₁, hnext₁, hO₁⟩ := h.turns F₁ hF₁
    obtain ⟨C₂, N₂, hturned₂, hW₂, hN₂, hnext₂, hO₂⟩ := h'.turns F₂ hF₂
    -- The two steps have their dots wait at different cells.
    have hwaits : WaitApart C₁ C₂ := by
      intro a ha b hb hwa hwb hpos
      have hWb := hW₂ b hb hwb
      rw [← hpos] at hWb
      exact hapart _ (hW₁ a ha hwa) hWb
    refine ⟨C₁ ++ C₂, N₁ ++ N₂, ⟨List.rel_append hturned₁.chooses hturned₂.chooses,
      hwaits.orderly hturned₁.orderly hturned₂.orderly, ?_⟩, ?_, List.rel_append hN₁ hN₂, ?_, ?_⟩
    · intro d hd
      rcases List.mem_append.mp hd with hd | hd
      · exact hturned₁.silent d hd
      · exact hturned₂.silent d hd
    · intro d hd hwaits
      rcases List.mem_append.mp hd with hd | hd
      · exact .inl (hW₁ d hd hwaits)
      · exact .inr (hW₂ d hd hwaits)
    · rw [nextInside_append hwaits hturned₁.orderly hturned₂.orderly]
      exact hnext₁.append hnext₂
    · rw [List.filter_append]
      exact List.rel_append hO₁ hO₂

/-- The order in which the dots are left does not matter. -/
theorem perm_next (h : Step w R ι X N O W) (hN : N'.Perm N) : Step w R ι X N' O W where
  within := h.within
  turns := by
    intro F hF
    obtain ⟨C, N₁, hturned, hW, hN₁, hnext, hO⟩ := h.turns F hF
    obtain ⟨N₂, hN₂, hperm⟩ := List.perm_comp_forall₂ hN hN₁
    exact ⟨C, N₂, hturned, hW, hN₂, hnext.trans hperm.symm, hO⟩

/-- Nothing happens where nobody is. -/
theorem nil : Step w R ι [] [] [] W where
  within := fun _ hx => nomatch hx
  turns := by
    intro F hF
    cases hF
    refine ⟨[], [], ⟨.nil, .nil, ?_⟩, ?_, .nil, .refl _, .nil⟩
    · intro d hd
      cases hd
    · intro d hd
      cases hd

theorem mono (h : Step w R ι X N O W) (hW : ∀ p, W p → W' p) : Step w R ι X N O W' where
  within := h.within
  turns := by
    intro F hF
    obtain ⟨C, N₁, hturned, hwaits, hN₁, hnext, hO⟩ := h.turns F hF
    exact ⟨C, N₁, hturned, fun d hd hw => hW _ (hwaits d hd hw), hN₁, hnext, hO⟩

/-- It does not count where the dots were made. -/
theorem bare (h : Step w R ι X N O W) :
    Step w R ι (X.map Dot.bare) (N.map Dot.bare) (O.map Dot.bare) W where
  within := by
    intro x hx
    obtain ⟨x₀, hx₀, rfl⟩ := List.mem_map.mp hx
    exact h.within x₀ hx₀
  turns := by
    intro F hF
    obtain ⟨C, N₁, hturned, hwaits, hN₁, hnext, hO⟩ := h.turns F (forall₂_bare_iff.mp hF)
    exact ⟨C, N₁, hturned, hwaits, forall₂_bare_iff.mpr hN₁, hnext, forall₂_bare_iff.mpr hO⟩

end Step

end DotPaths
