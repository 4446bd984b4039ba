import DotPaths.Proofs.Invariant
import DotPaths.Proofs.Observer
import DotPaths.Proofs.Passage

/-! # What notes show

    An observer who does not listen to the console writes down what the dots do.
    To show that the notes stand in some relation to the dots, whatever the
    program and the schedule are, it is enough to look at four things: a dot
    takes another phase, a dot acts, a dot is taken away, and the dead ones are
    taken away.
-/

namespace DotPaths

/-- The dot with number `i` acts on the cell `c`.  In the scene `s` it is `d`,
    and it has chosen its phase; it becomes `d'`, and dies if it is lost. -/
structure Turn.Acts (w : World) (i : Nat) (c : Cell) (d d' : Dot) (rest : List Dot)
    (s t : Scene) : Prop where
  dot : s.dots[i]? = some d
  cell : w.cell? d.pos = some c
  poised : d.Poised w
  does : Turn.Does w c i d s.dots rest d'
  moves : d.Moves w d'
  performed : ∃ r, Turn.perform c i (d.deed w c) s = .ok () r ∧ r.dots = rest.set i d'
  dots : t.dots = rest.set i (d'.settled w)

/-- The observer keeps the relation `I` between the dots and the notes. -/
structure Observer.Maintains {γ : Type} (o : Observer γ) (w : World) (I : List Dot → γ → Prop) :
    Prop where
  deaf : o.IsDeaf
  ticked : ∀ s g, o.ticked s g = g
  moved : ∀ s g, o.moved s g = g
  rephased : ∀ {dots : List Dot} {g : γ} {i : Nat} {d : Dot} (phase : Phase), I dots g →
    dots[i]? = some d → I (dots.set i { d with phase := phase }) g
  stepped : ∀ {s t : Scene} {g : γ} {i : Nat} {c : Cell} {d d' : Dot} {rest : List Dot},
    I s.dots g → Turn.Acts w i c d d' rest s t → I t.dots (o.stepped i s t g)
  erased : ∀ {dots : List Dot} {g : γ} (i : Nat), I dots g → I (dots.eraseIdx i) (o.erased i g)
  swept : ∀ {dots : List Dot} {g : γ} (n : Nat), I dots g →
    I (Machine.sweep n dots) (o.swept n dots g)

namespace Observed

open Scene

/-! ## Stops without notes -/

section
variable {σ γ α β δ : Type}

/-- If the action stops, it leaves the notes as they are. -/
def StopsStill (b : Observed σ γ α) : Prop := ∀ s e t, b s = .error e t → t.2 = s.2

namespace StopsStill

theorem of_still {b : Observed σ γ α} (h : Still b) : StopsStill b := by
  intro s e t ht
  have hnotes := h s
  rw [ht] at hnotes
  exact hnotes

theorem note (f : σ → γ → γ) : StopsStill (Observed.note f) := by
  intro s e t h
  cases h

theorem bind {b : Observed σ γ α} {f : α → Observed σ γ β} (hb : Still b)
    (hf : ∀ x, StopsStill (f x)) : StopsStill (b >>= f) := by
  intro s e t h
  rcases bind_error_iff.mp h with h | ⟨x, r, hx, h⟩
  · exact of_still hb s e t h
  · have hnotes := hb s
    rw [hx] at hnotes
    exact (hf x r e t h).trans hnotes

end StopsStill

end

/-! ## What is maintained -/

section
variable {γ α β δ : Type} {w : World} {I : List Dot → γ → Prop}

/-- What holds of the scene and the notes throughout a run. -/
def Kept (w : World) (I : List Dot → γ → Prop) (s : Scene × γ) : Prop :=
  AllStand w s.1.dots ∧ I s.1.dots s.2

/-- What holds when a run stops: the notes go with the dots as they were before
    the deed that stopped it, if it was the deed of a dot. -/
def Halted (w : World) (I : List Dot → γ → Prop) (e : Stop) (t : Scene × γ) : Prop :=
  ∃ s : Scene, I s.dots t.2 ∧ (e.OfMachine ∨ ∃ i, Turn.Halts w i e s t.1)

/-- From `s` on, the action keeps the relation. -/
def Maintained (w : World) (I : List Dot → γ → Prop) (b : Observed Scene γ α) (s : Scene × γ) :
    Prop :=
  match b s with
  | .ok _ t => Kept w I t
  | .error e t => Halted w I e t

namespace Maintained

variable {b : Observed Scene γ α} {s t : Scene × γ}

theorem of_parts (hok : ∀ x t, b s = .ok x t → Kept w I t)
    (herror : ∀ e t, b s = .error e t → Halted w I e t) : Maintained w I b s := by
  unfold Maintained
  cases h : b s with
  | ok x t => exact hok x t h
  | error e t => exact herror e t h

theorem ok {x : α} (h : Maintained w I b s) (hok : b s = .ok x t) : Kept w I t := by
  unfold Maintained at h
  rw [hok] at h
  exact h

theorem error {e : Stop} (h : Maintained w I b s) (herror : b s = .error e t) :
    Halted w I e t := by
  unfold Maintained at h
  rw [herror] at h
  exact h

/-- However the action ends, the notes go with some dots. -/
theorem exists_dots (h : Maintained w I b s) : ∃ dots, I dots (notes (b s)) := by
  unfold Maintained at h
  cases hb : b s with
  | ok x t =>
    rw [hb] at h
    exact ⟨_, h.2⟩
  | error e t =>
    rw [hb] at h
    obtain ⟨r, hr, -⟩ := h
    exact ⟨_, hr⟩

theorem throw {e : Stop} (h : Kept w I s) (he : e.OfMachine) :
    Maintained w I (MonadExcept.throw e : Observed Scene γ α) s :=
  show Halted w I e s from ⟨s.1, h.2, .inl he⟩

theorem bind {f : α → Observed Scene γ β} (hb : Maintained w I b s)
    (hf : ∀ x t, b s = .ok x t → Kept w I t → Maintained w I (f x) t) :
    Maintained w I (b >>= f) s := by
  apply of_parts
  · intro y t hok
    obtain ⟨x, r, hx, hy⟩ := bind_ok_iff.mp hok
    exact (hf x r hx (hb.ok hx)).ok hy
  · intro e t herror
    rcases bind_error_iff.mp herror with hx | ⟨x, r, hx, hy⟩
    · exact hb.error hx
    · exact (hf x r hx (hb.ok hx)).error hy

theorem forM {f : δ → Observed Scene γ PUnit}
    (hf : ∀ x s, Kept w I s → Maintained w I (f x) s) (l : List δ) (h : Kept w I s) :
    Maintained w I (l.forM f) s := by
  induction l generalizing s with
  | nil => exact h
  | cons x l ih =>
    simp only [List.forM_eq_forM, List.forM_cons] at ih ⊢
    exact (hf x s h).bind fun _ t _ ht => ih ht

/-- An action of the machine that no deed stops. -/
theorem quietly {a : Act α} (h : Kept w I s) (hstops : StopsFor Stop.OfMachine a)
    (hok : ∀ x t, a s.1 = .ok x t → Kept w I (t, s.2)) : Maintained w I (Observed.quietly a) s := by
  apply of_parts
  · intro x (t, g) ht
    obtain ⟨ht, hnotes⟩ := quietly_ok_iff.mp ht
    obtain rfl : g = s.2 := hnotes
    exact hok x t ht
  · intro e t ht
    obtain ⟨ht, hnotes⟩ := quietly_error ht
    exact ⟨s.1, hnotes ▸ h.2, .inl (hstops _ _ _ ht)⟩

/-- The dots are not touched. -/
theorem same {a : Act α} (h : Kept w I s) (hstops : StopsFor Stop.OfMachine a)
    (hok : ∀ x t, a s.1 = .ok x t → t.dots = s.1.dots) : Maintained w I (Observed.quietly a) s := by
  refine quietly h hstops fun x t ht => ?_
  have hdots := hok x t ht
  exact ⟨hdots ▸ h.1, hdots ▸ h.2⟩

theorem get (h : Kept w I s) : Maintained w I (Observed.quietly get) s :=
  same h .get fun x t ht => by cases ht; rfl

/-- An action that begins by looking at a dot. -/
theorem dotAt_bind {i : Nat} {f : Dot → Observed Scene γ β} (h : Kept w I s)
    (hf : ∀ d, s.1.dots[i]? = some d → Maintained w I (f d) s) :
    Maintained w I (Observed.quietly (dotAt i) >>= f) s := by
  have hstops : StopsFor Stop.OfMachine (dotAt i) := by
    intro s e t ht
    rw [dotAt_error ht]
    trivial
  have hsame : Maintained w I (Observed.quietly (dotAt i)) s :=
    same h hstops fun d t ht => by rw [(dotAt_ok_iff.mp ht).2]
  refine hsame.bind fun d t ht _ => ?_
  obtain ⟨ht, hnotes⟩ := quietly_ok_iff.mp ht
  obtain ⟨hd, hscene⟩ := dotAt_ok_iff.mp ht
  obtain rfl : t = s := Prod.ext hscene hnotes
  exact hf d hd

end Maintained

end

section
variable {γ : Type} {o : Observer γ} {w : World} {I : List Dot → γ → Prop} (h : o.Maintains w I)

include h

theorem die_maintained {i : Nat} {s : Scene × γ} {d : Dot} (hs : Kept w I s)
    (hd : s.1.dots[i]? = some d) : Maintained w I (quietly (setDot i d.die)) s := by
  refine .quietly hs (.completes fun s => ⟨_, _, rfl⟩) fun _ t ht => ?_
  cases ht
  exact ⟨hs.1.set (Dot.stands_of_dead rfl), h.rephased .dead hs.2 hd⟩

theorem choose_kept {i : Nat} {g : γ} {s t : Scene} (hs : Kept w I (s, g))
    (hok : Turn.choose w i s = .ok () t) : Kept w I (t, g) := by
  refine ⟨Turn.choose_allStand hok hs.1, ?_⟩
  obtain ⟨d, d', hd, hd', rfl⟩ := Turn.choose_ok_iff.mp hok
  rcases Dot.chosen_ok hd' with rfl | ⟨c, phase, -, -, -, rfl⟩
  · exact h.rephased .dead hs.2 hd
  · exact h.rephased phase hs.2 hd

theorem chooseAll_maintained {n : Nat} {s : Scene × γ} (hs : Kept w I s) :
    Maintained w I (quietly (Machine.chooseAll w n)) s := by
  refine .quietly hs (.forM _ fun i => Turn.choose_stops w i) fun _ t ht => ?_
  have hall : ∀ (l : List Nat) (r : Scene), Kept w I (r, s.2) →
      l.forM (Turn.choose w) r = .ok () t → Kept w I (t, s.2) := by
    intro l
    induction l with
    | nil =>
      intro r hr hok
      cases hok
      exact hr
    | cons i l ih =>
      intro r hr hok
      simp only [List.forM_eq_forM, List.forM_cons] at ih hok
      obtain ⟨_, r', hi, hok⟩ := bind_ok_iff.mp hok
      exact ih r' (choose_kept h hr hi) hok
  exact hall _ s.1 hs ht

/-- The middle of a step: the dot has chosen, and does its deed. -/
theorem deed_stepped {i : Nat} {c : Cell} {s s' t : Scene} {g : γ} {d d₁ : Dot}
    (hI : I s.dots g) (hd : s.dots[i]? = some d) (hc : w.cell? d.pos = some c)
    (hpoised : d.Poised w) (hp : Turn.perform c i (d.deed w c) s = .ok () s')
    (hd₁ : s'.dots[i]? = some d₁) (ht : t.dots = s'.dots.set i (d₁.settled w)) :
    I t.dots (o.stepped i s t g) := by
  obtain ⟨rest, d', hdoes, hmoves, hdots⟩ := Turn.perform_moves hd hc hp
  have hi := hdoes.lt_length (List.getElem?_eq_some_iff.mp hd).1
  rw [hdots, List.getElem?_set_self hi] at hd₁
  obtain rfl : d' = d₁ := Option.some.inj hd₁
  refine h.stepped hI ⟨hd, hc, hpoised, hdoes, hmoves, ⟨s', hp, hdots⟩, ?_⟩
  rw [ht, hdots, List.set_set]

theorem act_ok {i : Nat} {s t : Scene} {g g' : γ} (hs : Kept w I (s, g))
    (hact : act o w i (s, g) = .ok () (t, g')) : Kept w I (t, g') := by
  have hstand : AllStand w t.dots := Turn.act_allStand ((act_follows o w i).ok hact) hs.1
  unfold act at hact
  obtain ⟨d, r, hdot, hact⟩ := bind_ok_iff.mp hact
  obtain ⟨hdot, hnotes⟩ := quietly_ok_iff.mp hdot
  obtain ⟨hd, hscene⟩ := dotAt_ok_iff.mp hdot
  obtain rfl : r = (s, g) := Prod.ext hscene hnotes
  cases hc : w.cell? d.pos with
  | none =>
    rw [hc] at hact
    exact (die_maintained h hs hd).ok hact
  | some c =>
    simp only [hc, bind_ok_iff, quietly_ok_iff, perform_eq_quietly h.deaf] at hact
    obtain ⟨_, ⟨_, _⟩, ⟨hget, rfl⟩, _, ⟨s', _⟩, ⟨hp, rfl⟩, _, ⟨t', _⟩, ⟨hsettle, rfl⟩, hnote⟩ := hact
    cases hget
    cases hnote
    obtain ⟨d₁, hd₁, hset⟩ := Turn.settle_ok hsettle
    exact ⟨hstand, deed_stepped h hs.2 hd hc (hs.1.get hd).poised hp hd₁ (by rw [hset])⟩

theorem act_stopsStill (i : Nat) : StopsStill (act o w i) := by
  refine .bind (.quietly _) fun d => ?_
  cases w.cell? d.pos with
  | none => exact .of_still (.quietly _)
  | some c =>
    dsimp only
    rw [perform_eq_quietly h.deaf]
    exact .bind (.quietly _) fun s => .bind (.quietly _) fun _ => .bind (.quietly _) fun _ =>
      .note _

theorem act_maintained (i : Nat) {s : Scene × γ} (hs : Kept w I s) :
    Maintained w I (act o w i) s := by
  apply Maintained.of_parts
  · exact fun _ t hact => act_ok h hs hact
  · intro e t hact
    have hnotes := act_stopsStill h i s e t hact
    have hstop := Turn.act_error hs.1 ((act_follows o w i).error hact)
    exact ⟨s.1, hnotes ▸ hs.2, hstop.imp_right fun hhalts => ⟨i, hhalts⟩⟩

omit h in
/-- The end of a step is the settling of the dot. -/
theorem goesOn_ok {i : Nat} {s t : Scene} {goes : Bool} (hok : goesOn w i s = .ok goes t) :
    ∃ d, s.dots[i]? = some d ∧ t.dots = s.dots.set i (d.settled w) := by
  unfold goesOn at hok
  obtain ⟨d, r, hdot, hok⟩ := bind_ok_iff.mp hok
  obtain ⟨hd, hr⟩ := dotAt_ok_iff.mp hdot
  rw [hr] at hok
  have hsame : s.dots.set i d = s.dots := by
    obtain ⟨hi, rfl⟩ := List.getElem?_eq_some_iff.mp hd
    simp
  refine ⟨d, hd, ?_⟩
  cases hdead : d.isDead with
  | true =>
    rw [hdead, if_pos rfl] at hok
    cases hok
    rw [Dot.settled_of_dead (Dot.isDead_iff.mp hdead), hsame]
  | false =>
    rw [hdead, if_neg (by simp)] at hok
    cases hlost : Turn.isLost w d with
    | true =>
      rw [hlost, if_pos rfl] at hok
      obtain ⟨_, r, hset, hok⟩ := bind_ok_iff.mp hok
      cases hset
      cases hok
      rw [Dot.settled_of_lost hlost]
    | false =>
      rw [hlost, if_neg (by simp)] at hok
      cases hok
      rw [Dot.settled_of_not_lost hlost, hsame]

theorem step_ok {i : Nat} {c : Cell} {s t : Scene} {g g' : γ} {d : Dot} {goes : Bool}
    (hs : Kept w I (s, g)) (hd : s.dots[i]? = some d) (hc : w.cell? d.pos = some c)
    (hok : step o w i c (s, g) = .ok goes (t, g')) : Kept w I (t, g') := by
  have hi := (List.getElem?_eq_some_iff.mp hd).1
  have hstand : AllStand w t.dots :=
    Turn.step_allStand ((step_follows o w i c).ok hok) hs.1 hd hc
  refine ⟨hstand, ?_⟩
  unfold step at hok
  obtain ⟨d', r, hdot, hok⟩ := bind_ok_iff.mp hok
  obtain ⟨hdot, hnotes⟩ := quietly_ok_iff.mp hdot
  obtain ⟨hd', hscene⟩ := dotAt_ok_iff.mp hdot
  obtain rfl : r = (s, g) := Prod.ext hscene hnotes
  cases hd.symm.trans hd'
  cases hphase : d.choose c with
  | error why =>
    simp only [hphase] at hok
    obtain ⟨_, _, hthrow, -⟩ := bind_ok_iff.mp hok
    exact absurd hthrow throw_ne_ok
  | ok phase =>
    simp only [hphase, bind_ok_iff, quietly_ok_iff, perform_eq_quietly h.deaf, dotAt_ok_iff] at hok
    obtain ⟨_, ⟨r, _⟩, ⟨hset, rfl⟩, d₁, ⟨_, _⟩, ⟨⟨hd₁, rfl⟩, rfl⟩, _, ⟨_, _⟩, ⟨hget, rfl⟩, _, ⟨s', _⟩,
      ⟨hp, rfl⟩, _, ⟨t', _⟩, ⟨hgoes, rfl⟩, _, _, hnote, hok⟩ := hok
    cases hset
    cases hget
    cases hnote
    cases hok
    simp only [List.getElem?_set_self hi] at hd₁
    cases hd₁
    obtain ⟨d₂, hd₂, hset⟩ := goesOn_ok hgoes
    exact deed_stepped h (h.rephased phase hs.2 hd) (List.getElem?_set_self hi) hc
      ((hs.1.get hd).choose hc hphase) hp hd₂ hset

theorem step_stopsStill (i : Nat) (c : Cell) : StopsStill (step o w i c) := by
  refine .bind (.quietly _) fun d => ?_
  cases d.choose c with
  | error why =>
    intro s e t hstop
    cases hstop
    rfl
  | ok phase =>
    refine .bind (.quietly _) fun _ => .bind (.quietly _) fun d => .bind (.quietly _) fun s => ?_
    rw [perform_eq_quietly h.deaf]
    refine .bind (.quietly _) fun _ => .bind (.quietly _) fun goes => ?_
    intro s e t hstop
    cases hstop

theorem step_maintained {i : Nat} {c : Cell} {s : Scene × γ} {d : Dot} (hs : Kept w I s)
    (hd : s.1.dots[i]? = some d) (hc : w.cell? d.pos = some c) :
    Maintained w I (step o w i c) s := by
  apply Maintained.of_parts
  · exact fun goes t hok => step_ok h hs hd hc hok
  · intro e t hstop
    have hnotes := step_stopsStill h i c s e t hstop
    rcases Turn.step_error hs.1 hd hc ((step_follows o w i c).error hstop) with
      hmachine | ⟨phase, hhalts⟩
    · exact ⟨s.1, hnotes ▸ hs.2, .inl hmachine⟩
    · exact ⟨_, hnotes ▸ h.rephased phase hs.2 hd, .inr ⟨i, hhalts⟩⟩

theorem tick_maintained {s : Scene × γ} (hs : Kept w I s) : Maintained w I (tick o w) s := by
  rw [tick_eq_quietly h.deaf h.ticked]
  exact .same hs (Scene.tick_stops w) fun _ t hok => tick_dots hok

theorem runOn_maintained (i fuel : Nat) (past : List Pos) {s : Scene × γ} (hs : Kept w I s) :
    Maintained w I (runOn o w i fuel past) s := by
  induction fuel generalizing past s with
  | zero => exact hs
  | succ fuel ih =>
    refine (tick_maintained h hs).bind fun _ t _ ht => .dotAt_bind ht fun d hd => ?_
    by_cases hpast : past.contains d.pos = true
    · rw [if_pos hpast]
      exact ht
    · rw [if_neg hpast]
      rw [noting_eq_self h.moved]
      cases hc : w.cell? d.pos with
      | none => exact die_maintained h ht hd
      | some c =>
        simp only [noting_eq_self h.moved]
        refine (step_maintained h ht hd hc).bind fun goes r _ hr => ?_
        cases goes with
        | true => exact ih _ hr
        | false => exact hr

theorem parallelTick_maintained {s : Scene × γ} (hs : Kept w I s) :
    Maintained w I (parallelTick o w) s := by
  have hmove : ∀ n {s}, Kept w I s → Maintained w I (moveAll o w n) s := by
    intro n s hs
    unfold moveAll
    rw [noting_eq_self h.moved]
    exact (chooseAll_maintained h hs).bind fun _ s _ hs =>
      Maintained.forM (fun i s hs => act_maintained h i hs) _ hs
  refine (Maintained.get hs).bind fun _ s _ hs => (hmove _ hs).bind fun _ s _ hs => ?_
  -- The note about the sweep and the sweep itself belong together.
  refine tick_maintained h (s := (⟨_, _, _, _⟩, _)) ⟨?_, h.swept _ hs.2⟩
  intro d hd
  rcases List.mem_append.mp hd with hd | hd
  · exact hs.1 d (List.mem_of_mem_take (List.mem_filter.mp hd).1)
  · exact hs.1 d (List.mem_of_mem_drop hd)

theorem turns_maintained (n i : Nat) {s : Scene × γ} (hs : Kept w I s) :
    Maintained w I (turns o w n i) s := by
  induction n generalizing i s with
  | zero => exact hs
  | succ n ih =>
    refine (runOn_maintained h i _ _ hs).bind fun _ s _ hs => .dotAt_bind hs fun d hd => ?_
    cases d.isDead with
    | false => exact ih (i + 1) hs
    | true =>
      refine ih i (s := (⟨_, _, _, _⟩, _)) ⟨?_, h.erased i hs.2⟩
      intro o ho
      exact hs.1 o (List.mem_of_mem_eraseIdx ho)

/-- What the observer maintains holds throughout every run. -/
theorem loop_maintained (parallel : Bool) (fuel : Nat) {s : Scene × γ} (hs : Kept w I s) :
    Maintained w I (loop o w parallel fuel) s := by
  induction fuel generalizing s with
  | zero => exact hs
  | succ fuel ih =>
    have htick : ∀ {s : Scene × γ}, Kept w I s → Maintained w I (tickBy o w parallel) s := by
      intro s hs
      cases parallel with
      | true => exact parallelTick_maintained h hs
      | false => exact (Maintained.get hs).bind fun _ s _ hs => turns_maintained h _ _ hs
    refine (Maintained.get hs).bind fun r s _ hs => ?_
    cases r.dots.isEmpty with
    | true =>
      exact (Maintained.throw hs (e := .exit) trivial).bind fun _ s _ hs =>
        (htick hs).bind fun _ s _ hs => ih hs
    | false => exact (htick hs).bind fun _ s _ hs => ih hs

end

end Observed

/-! ## Trials -/

namespace Machine

/-- Does a launched program complete some ticks, with notes that pass the check? -/
def noteTrial {γ : Type} (o : Observer γ) (start : Machine → γ) (launched : Machine × Option Stop)
    (fuel : Nat) (check : World → γ → Bool) : Bool :=
  match launched with
  | (m, none) =>
    match Observed.loop o m.world m.parallel fuel (m.scene, start m) with
    | .ok _ s => check m.world s.2
    | .error _ _ => false
  | _ => false

theorem exists_of_noteTrial {γ : Type} {o : Observer γ} {start : Machine → γ}
    {launched : Machine × Option Stop} {fuel : Nat} {check : World → γ → Bool}
    (h : noteTrial o start launched fuel check = true) :
    ∃ m s g, launched = (m, none) ∧
      Observed.loop o m.world m.parallel fuel (m.scene, start m) = .ok () (s, g) ∧
      check m.world g = true := by
  unfold noteTrial at h
  split at h
  · next m =>
    split at h
    · next u s hs => exact ⟨m, s.1, s.2, rfl, hs, h⟩
    · cases h
  · cases h

end Machine

end DotPaths
