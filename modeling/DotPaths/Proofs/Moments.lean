import DotPaths.Proofs.Solo

/-! # The moments of a run

    A tick of either schedule is made of parts: a dot chooses, acts, or takes a
    step; dots are taken away; the console is told that a step is over.  The
    scenes between these parts are the moments of a run.  There is one also when
    a part stops the run, with all that was done until then.

    The dots stand in their places at every moment, and not only after the ticks
    that complete: a turn that stops leaves its dot where it was, with what it
    carried.  So at every moment a dot that chooses and then acts does what it
    does in a single step.
-/

namespace DotPaths

open Scene

/-! ## What a turn leaves when it stops -/

/-- If the deed stops the run, `P` holds of the dot that is left. -/
def Deed.Leaves (P : Dot → Prop) : Deed → Prop
  | .print _ before _ => P before
  | .stop d _ => P d
  | _ => True

namespace Dot

/-- The dot `d'` is left of the dot `d` when its deed has stopped the run: it may
    have remembered a warp, or closed a text. -/
structure Interrupted (d d' : Dot) : Prop where
  pos : d'.pos = d.pos
  dir : d'.dir = d.dir
  value : d'.value = d.value
  id : d'.id = d.id
  phase : d'.phase = d.phase ∨ d.phase.isPrinting = true ∧ d'.phase.isPrinting = true

variable {w : World} {c : Cell} {d d' : Dot}

theorem Interrupted.refl (d : Dot) : d.Interrupted d :=
  ⟨rfl, rfl, rfl, rfl, .inl rfl⟩

/-- Such a dot is in its place if it was before. -/
theorem Interrupted.stands (h : d.Interrupted d') (hd : d.Stands w) : d'.Stands w := by
  intro hlive'
  have hlive : d.isDead = false := by
    rcases h.phase with hsame | ⟨hprinting, -⟩
    · rw [isDead, ← hsame]
      exact hlive'
    · cases hp : d.phase <;> simp_all [isDead, Phase.isDead, Phase.isPrinting]
  obtain ⟨hdir, c, hc, hblank, hfits⟩ := hd hlive
  rw [← h.dir] at hdir
  rw [← h.pos] at hc
  refine ⟨hdir, c, hc, ?_, ?_⟩
  · intro hb
    rcases h.phase with hsame | ⟨-, hprinting⟩
    · rw [hsame]
      exact hblank hb
    · exact hprinting
  · intro m hm
    rcases h.phase with hsame | ⟨-, hprinting⟩
    · rw [h.dir]
      exact hfits m (hsame.symm.trans hm)
    · rw [hm] at hprinting
      cases hprinting

theorem travelDeed_leaves : (d.travelDeed w c).Leaves d.Interrupted := by
  unfold travelDeed
  split
  · trivial
  · split
    · trivial
    · split
      · split
        · unfold leave
          split
          · split <;> exact .refl d
          · trivial
        · unfold warpThrough
          dsimp only
          have hremember : ∀ b : Bool,
              d.Interrupted (if b then { d with stack := d.pos :: d.stack } else d) := by
            intro b
            cases b with
            | true => exact ⟨rfl, rfl, rfl, rfl, .inl rfl⟩
            | false => exact .refl d
          split
          · exact hremember _
          · exact hremember _
          · trivial
      · trivial

theorem entryDeed_leaves {e : Entry} {a : Number} {set : Dot → Number → Dot}
    {phase : Entry → Phase} : (d.entryDeed c e a set phase).Leaves d.Interrupted := by
  unfold entryDeed
  repeat' split
  all_goals trivial

theorem printDeed_leaves (p : Printing) : (d.printDeed c p).Leaves d.Interrupted := by
  have hnumber : ∀ a, (d.printNumber p a).Leaves d.Interrupted := by
    intro a
    unfold printNumber
    split <;> exact .refl d
  unfold printDeed
  repeat' split
  · trivial
  · trivial
  · trivial
  · exact hnumber _
  · exact hnumber _
  · trivial

theorem quoteDeed_leaves {q : Quoting} (h : d.phase = .quote q) :
    (d.quoteDeed c q).Leaves d.Interrupted := by
  unfold quoteDeed
  split
  · trivial
  · split
    · unfold doubleDeed
      split
      · exact ⟨rfl, rfl, rfl, rfl, .inr ⟨by rw [h]; rfl, rfl⟩⟩
      · trivial
    · unfold singleDeed
      dsimp only
      repeat' split
      · exact .refl d
      · trivial
      · exact .refl d

/-- Whatever its deed is, a dot that stops the run is left where it was. -/
theorem deed_leaves : (d.deed w c).Leaves d.Interrupted := by
  unfold deed
  cases hphase : d.phase with
  | blank => exact .refl d
  | travel => exact travelDeed_leaves
  | value e => exact entryDeed_leaves
  | ident e => exact entryDeed_leaves
  | print p => exact printDeed_leaves p
  | quote q => exact quoteDeed_leaves hphase
  | meet m => trivial
  | dead => trivial
  | exit => exact .refl d

end Dot

namespace Scene

variable {i : Nat} {s t : Scene} {e : Stop}

theorem dotAt_of_none (h : s.dots[i]? = none) :
    dotAt i s = .error (.fault (.noSuchDot .outOfRange)) s := by
  have hget : (get : Act Scene) s = .ok s s := rfl
  unfold dotAt
  rw [bind_of_ok hget]
  simp only [h]
  rfl

/-- An action that begins by looking at a dot stops at once if there is none. -/
theorem dotAt_bind_of_none {α : Type} {f : Dot → Act α} (h : s.dots[i]? = none) :
    (dotAt i >>= f) s = .error (.fault (.noSuchDot .outOfRange)) s :=
  bind_of_error (dotAt_of_none h)

theorem onConsole_error_dots {α : Type} {a : ConsoleAct α} (h : onConsole a s = .error e t) :
    t.dots = s.dots := by
  have hdots : (endState (onConsole a s)).dots = s.dots := by rw [endState_onConsole]
  rw [h] at hdots
  exact hdots

theorem endState_tick_dots (w : World) (s : Scene) : (endState (tick w s)).dots = s.dots := by
  obtain ⟨t, hdots, -, ht⟩ := tick_eq w s
  rw [ht, endState_onConsole]
  exact hdots

end Scene

namespace Turn

variable {w : World} {c : Cell} {i : Nat} {d : Dot} {s t : Scene} {e : Stop}

/-- A dot that does not choose changes nothing. -/
theorem choose_error_scene (h : choose w i s = .error e t) :
    t = s ∧ (e = .fault (.noSuchDot .outOfRange) ∨ e = .fault .cannotChoose ∨ e = .exit) := by
  unfold choose at h
  cases hd : s.dots[i]? with
  | none =>
    rw [dotAt_bind_of_none hd] at h
    cases h
    exact ⟨rfl, .inl rfl⟩
  | some d =>
    rw [bind_of_ok (dotAt_apply hd)] at h
    cases hc : w.cell? d.pos with
    | none =>
      simp only [hc] at h
      cases h
    | some c =>
      simp only [hc] at h
      cases hch : d.choose c with
      | ok phase =>
        simp only [hch] at h
        cases h
      | error why =>
        simp only [hch] at h
        obtain ⟨rfl, rfl⟩ := throw_error_iff.mp h
        exact ⟨rfl, .inr (Dot.choose_error hch)⟩

/-- A deed that stops the run changes no dot but its own, which is left where it
    was. -/
theorem perform_error_dots (hd : s.dots[i]? = some d)
    (h : perform c i (d.deed w c) s = .error e t) :
    t.dots = s.dots ∨ ∃ d', d.Interrupted d' ∧ t.dots = s.dots.set i d' := by
  have hleaves := Dot.deed_leaves (w := w) (c := c) (d := d)
  have hfails := perform_fails h
  generalize d.deed w c = deed at hleaves hfails
  cases hfails with
  | @output _ before _ _ _ hout => exact .inr ⟨before, hleaves, onConsole_error_dots hout⟩
  | input hread => exact .inl (onConsole_error_dots hread)
  | meeting hmeeting =>
    rw [(meeting_error hd hmeeting).1]
    exact .inl rfl
  | stop d' why => exact .inr ⟨d', hleaves, rfl⟩

/-- A turn stops by its deed: once that is done, the dot only settles. -/
theorem act_error_deed (hd : s.dots[i]? = some d) (h : act w i s = .error e t) :
    ∃ c, w.cell? d.pos = some c ∧ perform c i (d.deed w c) s = .error e t := by
  cases hc : w.cell? d.pos with
  | none =>
    rw [act_outside hd hc] at h
    cases h
  | some c =>
    refine ⟨c, rfl, ?_⟩
    cases hp : perform c i (d.deed w c) s with
    | ok u s₁ =>
      obtain ⟨rest, d', hdoes, hrest⟩ := perform_does hd hc hp
      have hd' : s₁.dots[i]? = some d' := by
        rw [hrest]
        exact List.getElem?_set_self (hdoes.lt_length (List.getElem?_eq_some_iff.mp hd).1)
      rw [act_of_perform hd hc hp hd'] at h
      cases h
    | error e' t' =>
      have hact : act w i s = .error e' t' := by
        unfold act
        rw [bind_of_ok (dotAt_apply hd)]
        simp only [hc]
        exact bind_of_error hp
      rw [hact] at h
      exact h

/-- A turn that stops the run leaves all dots as they were, but for its own, which
    is left where it was. -/
theorem act_error_dots (h : act w i s = .error e t) :
    t.dots = s.dots ∨
      ∃ d d', s.dots[i]? = some d ∧ d.Interrupted d' ∧ t.dots = s.dots.set i d' := by
  cases hd : s.dots[i]? with
  | none =>
    unfold act at h
    rw [dotAt_bind_of_none hd] at h
    cases h
    exact .inl rfl
  | some d =>
    obtain ⟨c, -, hp⟩ := act_error_deed hd h
    rcases perform_error_dots hd hp with hsame | ⟨d', hleft, hset⟩
    · exact .inl hsame
    · exact .inr ⟨d, d', rfl, hleft, hset⟩

end Turn

/-! ## Moments -/

namespace Machine

/-- A part of a tick. -/
inductive Part (w : World) : Act Unit → Prop where
  /-- A dot chooses. -/
  | choose (i : Nat) : Part w (Turn.choose w i)
  /-- A dot acts. -/
  | act (i : Nat) : Part w (Turn.act w i)
  /-- A dot takes a step. -/
  | step (i : Nat) : Part w (Turn.stepOnce w i)
  /-- The dead dots among the first `n` are taken away. -/
  | sweep (n : Nat) : Part w (modify fun s => { s with dots := sweep n s.dots })
  /-- One dot is taken away. -/
  | erase (i : Nat) : Part w (modify fun s => { s with dots := s.dots.eraseIdx i })
  /-- The console is told that a step is over. -/
  | tick : Part w (Scene.tick w)

/-- A scene that a program can come to from part to part, in the middle of a tick
    or at its end, whether the last part completes or stops the run. -/
inductive Moment (w : World) : Scene → Prop where
  | launched {shelf : Shelf} {program : String} {parallel : Bool} {console : Console}
      {traced : Nat} {m : Machine} :
      launch shelf program parallel console traced = (m, none) → m.world = w →
      Moment w m.scene
  | goes {s : Scene} {a : Act Unit} : Moment w s → Part w a → Moment w (endState (a s))

/-- From the scene `s` the action comes to a moment, and if it stops, then for a
    reason of which `P` holds. -/
def Goes {α : Type} (w : World) (P : Stop → Prop) (a : Act α) (s : Scene) : Prop :=
  Moment w (endState (a s)) ∧ ∀ e t, a s = .error e t → P e

/-- `P` holds of the reasons for which runs stop. -/
structure Covers (w : World) (P : Stop → Prop) : Prop where
  leaves : P .exit
  part : ∀ {s a e t}, Moment w s → Part w a → a s = .error e t → P e

/-- Some condition holds of all of them. -/
theorem Covers.any {w : World} : Covers w fun _ => True := ⟨trivial, fun _ _ _ => trivial⟩

namespace Goes

variable {α β : Type} {w : World} {P : Stop → Prop} {a : Act α} {s s' : Scene}

theorem moment {x : α} (h : Goes w P a s) (hok : a s = .ok x s') : Moment w s' := by
  have hend := h.1
  rw [hok] at hend
  exact hend

theorem of_part {a : Act Unit} (hP : Covers w P) (hs : Moment w s) (ha : Part w a) :
    Goes w P a s :=
  ⟨hs.goes ha, fun _ _ => hP.part hs ha⟩

theorem pure {x : α} (hs : Moment w s) : Goes w P (Pure.pure x) s :=
  ⟨hs, fun _ _ h => absurd h pure_ne_error⟩

/-- A composite action goes from moment to moment if its parts do. -/
theorem bind {f : α → Act β} (ha : Goes w P a s)
    (hf : ∀ x s', a s = .ok x s' → Moment w s' → Goes w P (f x) s') : Goes w P (a >>= f) s := by
  cases hx : a s with
  | ok x s' =>
    have hrest := hf x s' hx (ha.moment hx)
    unfold Goes at hrest ⊢
    rw [bind_of_ok hx]
    exact hrest
  | error e t =>
    unfold Goes at ha ⊢
    rw [hx] at ha
    -- What would come next is not reached.
    rw [bind_of_error hx]
    exact ⟨ha.1, fun e' t' h => ha.2 e' t' (by cases h; rfl)⟩

/-- An action that begins by looking at a dot. -/
theorem dotAt_bind {i : Nat} {f : Dot → Act β} (hP : Covers w P) (hs : Moment w s)
    (hf : ∀ d, s.dots[i]? = some d → Goes w P (f d) s) : Goes w P (dotAt i >>= f) s := by
  cases hd : s.dots[i]? with
  | none =>
    -- A dot that is not there cannot choose either.
    have hchoose : Turn.choose w i s = .error (.fault (.noSuchDot .outOfRange)) s :=
      dotAt_bind_of_none hd
    unfold Goes
    rw [dotAt_bind_of_none hd]
    refine ⟨hs, fun e t h => ?_⟩
    cases h
    exact hP.part hs (.choose i) hchoose
  | some d =>
    unfold Goes
    rw [bind_of_ok (dotAt_apply hd)]
    exact hf d hd

theorem forM {γ : Type} {f : γ → Act PUnit} (hf : ∀ x s, Moment w s → Goes w P (f x) s)
    (l : List γ) (hs : Moment w s) : Goes w P (l.forM f) s := by
  induction l generalizing s with
  | nil => exact pure hs
  | cons x l ih =>
    simp only [List.forM_eq_forM, List.forM_cons] at ih ⊢
    exact (hf x s hs).bind fun _ s' _ hs' => ih hs'

end Goes

section runs
variable {w : World} {P : Stop → Prop} {s : Scene} {i : Nat}

/-- A step of a dot that runs on is a single step, whose result is used. -/
theorem goes_step {c : Cell} {d : Dot} (hP : Covers w P) (hs : Moment w s)
    (hd : s.dots[i]? = some d) (hc : w.cell? d.pos = some c) : Goes w P (Turn.step w i c) s := by
  have hpart := Goes.of_part hP hs (.step i)
  unfold Goes at hpart ⊢
  rw [Turn.stepOnce_inside hd hc] at hpart
  cases hstep : Turn.step w i c s with
  | ok b t =>
    rw [bind_of_ok hstep] at hpart
    exact ⟨hpart.1, fun e t h => by cases h⟩
  | error e t =>
    rw [bind_of_error hstep] at hpart
    exact ⟨hpart.1, fun e t h => hpart.2 e t (by cases h; rfl)⟩

/-- Outside the drawing, where a step ends the dot. -/
theorem goes_die {d : Dot} (hP : Covers w P) (hs : Moment w s) (hd : s.dots[i]? = some d)
    (hc : w.cell? d.pos = none) : Goes w P (setDot i d.die) s := by
  have hpart := Goes.of_part hP hs (.step i)
  unfold Goes at hpart ⊢
  rw [Turn.stepOnce_outside hd hc] at hpart
  exact hpart

theorem goes_runOn {fuel : Nat} {past : List Pos} (hP : Covers w P) (hs : Moment w s) :
    Goes w P (Turn.runOn w i fuel past) s := by
  induction fuel generalizing s past with
  | zero => exact .pure hs
  | succ fuel ih =>
    -- The console is told first, and the dot is looked at after that.
    refine (Goes.of_part hP hs .tick).bind fun _ t _ ht => .dotAt_bind hP ht fun d hd => ?_
    by_cases hpast : past.contains d.pos = true
    · rw [if_pos hpast]
      exact .pure ht
    · rw [if_neg hpast]
      cases hc : w.cell? d.pos with
      | none => exact goes_die hP ht hd hc
      | some c =>
        refine (goes_step hP ht hd hc).bind fun goes t' _ ht' => ?_
        cases goes with
        | true => exact ih ht'
        | false => exact .pure ht'

theorem goes_turns {runsOn : Bool} {n : Nat} (hP : Covers w P) (hs : Moment w s) :
    Goes w P (turns w runsOn n i) s := by
  induction n generalizing s i with
  | zero => exact .pure hs
  | succ n ih =>
    have hsimulate : Goes w P (Turn.simulate w runsOn i) s := by
      cases runsOn with
      | true => exact goes_runOn hP hs
      | false => exact .of_part hP hs (.step i)
    refine hsimulate.bind fun _ t _ ht => .dotAt_bind hP ht fun d hd => ?_
    by_cases hdead : d.isDead = true
    · rw [if_pos hdead]
      exact (Goes.of_part hP ht (.erase i)).bind fun _ t' _ ht' => ih ht'
    · rw [if_neg hdead]
      exact ih ht

theorem goes_asyncTick {runsOn : Bool} (hP : Covers w P) (hs : Moment w s) :
    Goes w P (asyncTick w runsOn) s :=
  goes_turns hP hs

theorem goes_chooseAll {n : Nat} (hP : Covers w P) (hs : Moment w s) :
    Goes w P (chooseAll w n) s :=
  .forM (fun i _ hs => .of_part hP hs (.choose i)) _ hs

theorem goes_actAll {n : Nat} (hP : Covers w P) (hs : Moment w s) : Goes w P (actAll w n) s :=
  .forM (fun i _ hs => .of_part hP hs (.act i)) _ hs

theorem goes_parallelTick (hP : Covers w P) (hs : Moment w s) : Goes w P (parallelTick w) s := by
  show Goes w P (chooseAll w s.dots.length >>= fun _ => _) s
  refine (goes_chooseAll hP hs).bind fun _ c _ hc => ?_
  refine (goes_actAll hP hc).bind fun _ t _ ht => ?_
  exact (Goes.of_part hP ht (.sweep s.dots.length)).bind fun _ t' _ ht' => .of_part hP ht' .tick

/-- A run of either schedule goes from moment to moment. -/
theorem goes_loop {parallel : Bool} {n : Nat} (hP : Covers w P) (hs : Moment w s) :
    Goes w P (loop w parallel n) s := by
  induction n generalizing s with
  | zero => exact .pure hs
  | succ n ih =>
    by_cases hdots : s.dots = []
    -- Without dots the run is over at once.
    · unfold Goes
      rw [loop_of_no_dots hdots]
      exact ⟨hs, fun e t h => by cases h; exact hP.leaves⟩
    · unfold Goes
      rw [loop_of_dots hdots]
      have htick : Goes w P (tickBy w parallel) s := by
        cases parallel with
        | true => exact goes_parallelTick hP hs
        | false => exact goes_asyncTick hP hs
      exact htick.bind fun _ t _ ht => ih ht

end runs

/-- All that a run does from a moment on leads to moments. -/
theorem Moment.loop {w : World} {parallel : Bool} {n : Nat} {s : Scene} (h : Moment w s) :
    Moment w (endState (Machine.loop w parallel n s)) :=
  (goes_loop .any h).1

/-- The scenes between ticks are moments. -/
theorem Reachable.moment {w : World} {s : Scene} (h : Reachable w s) : Moment w s := by
  induction h with
  | launched hm hworld => exact .launched hm hworld
  | parallel _ htick ih => exact (goes_parallelTick .any ih).moment htick
  | async _ htick ih => exact (goes_asyncTick .any ih).moment htick

/-! ## What is kept from moment to moment -/

/-- What the parts of a tick keep.  It is enough to look at a dot that chooses or
    acts, and at dots that are taken away. -/
structure KeptByParts (w : World) (I : List Dot → Prop) : Prop where
  stands : ∀ {dots}, I dots → AllStand w dots
  choose : ∀ {s i}, I s.dots → I (endState (Turn.choose w i s)).dots
  act : ∀ {s i}, I s.dots → I (endState (Turn.act w i s)).dots
  fewer : ∀ {dots dots'}, dots' ⊆ dots → I dots → I dots'

section keeping
variable {w : World} {I : List Dot → Prop} {s : Scene} {i : Nat}

theorem KeptByParts.step (hI : KeptByParts w I) (h : I s.dots) :
    I (endState (Turn.stepOnce w i s)).dots := by
  cases hd : s.dots[i]? with
  | none =>
    unfold Turn.stepOnce
    rw [dotAt_bind_of_none hd]
    exact h
  | some d =>
    -- A step is a choice and a deed.
    rw [← Turn.choose_act_eq_stepOnce hd ((hI.stands h).get hd)]
    have hchosen := hI.choose (i := i) h
    cases hr : Turn.choose w i s with
    | ok u t =>
      rw [hr] at hchosen
      rw [bind_of_ok hr]
      exact hI.act hchosen
    | error e t =>
      rw [hr] at hchosen
      rw [bind_of_error hr]
      exact hchosen

theorem KeptByParts.part {a : Act Unit} (hI : KeptByParts w I) (ha : Part w a) (h : I s.dots) :
    I (endState (a s)).dots := by
  cases ha with
  | choose i => exact hI.choose h
  | act i => exact hI.act h
  | step i => exact hI.step h
  | sweep n =>
    -- The old dots that are left, and all new ones, were there before.
    refine hI.fewer ?_ h
    intro d hd
    rcases List.mem_append.mp hd with hold | hnew
    · exact List.mem_of_mem_take (List.mem_filter.mp hold).1
    · exact List.mem_of_mem_drop hnew
  | erase i => exact hI.fewer (fun d hd => List.mem_of_mem_eraseIdx hd) h
  | tick =>
    rw [endState_tick_dots]
    exact h

/-- What the parts keep and what holds of new dots holds at every moment. -/
theorem Moment.keeps (h : Moment w s) (hI : KeptByParts w I)
    (hborn : ∀ {shelf program dots}, World.build shelf program = .ok w →
      (∀ d ∈ dots, Born w d) → I dots) : I s.dots := by
  induction h with
  | launched hm hworld =>
    subst hworld
    obtain ⟨hbuild, hdots⟩ := launch_ok hm
    exact hborn hbuild hdots
  | goes _ ha ih => exact hI.part ha ih

end keeping

/-! ## The dots at every moment -/

section stand
variable {w : World} {s : Scene} {i : Nat}

theorem allStand_choose (h : AllStand w s.dots) :
    AllStand w (endState (Turn.choose w i s)).dots := by
  cases hr : Turn.choose w i s with
  | ok u t => exact Turn.choose_allStand hr h
  | error e t =>
    rw [(Turn.choose_error_scene hr).1]
    exact h

theorem allStand_act (h : AllStand w s.dots) : AllStand w (endState (Turn.act w i s)).dots := by
  cases hr : Turn.act w i s with
  | ok u t => exact Turn.act_allStand hr h
  | error e t =>
    rcases Turn.act_error_dots hr with hsame | ⟨d, d', hd, hleft, hset⟩
    · exact hsame ▸ h
    · exact hset ▸ h.set (hleft.stands (h.get hd))

/-- At every moment of a run all dots are dead or in their places. -/
theorem Moment.allStand (h : Moment w s) : AllStand w s.dots := by
  refine h.keeps (I := AllStand w) ⟨fun h => h, allStand_choose, allStand_act, ?_⟩ ?_
  · exact fun hsub hdots d hd => hdots d (hsub hd)
  · exact fun hbuild hdots d hd => (hdots d hd).stands hbuild

/-- When a dot chooses, acts, or does both in one step, a run stops only for
    reasons for which it stops when a dot chooses or acts. -/
theorem Covers.of_turns {P : Stop → Prop} (hexit : P .exit)
    (hchoose : ∀ {s i e t}, Moment w s → Turn.choose w i s = .error e t → P e)
    (hact : ∀ {s i e t}, Moment w s → Turn.act w i s = .error e t → P e)
    (htick : ∀ {s e t}, Scene.tick w s = .error e t → P e) : Covers w P := by
  refine ⟨hexit, ?_⟩
  intro s a e t hs ha herror
  cases ha with
  | choose i => exact hchoose hs herror
  | act i => exact hact hs herror
  | step i =>
    cases hd : s.dots[i]? with
    | none =>
      -- A dot that is not there cannot choose either.
      have hsame : Turn.choose w i s = Turn.stepOnce w i s :=
        (dotAt_bind_of_none hd).trans (dotAt_bind_of_none hd).symm
      exact hchoose hs (hsame.trans herror)
    | some d =>
      -- At a moment the dot is in its place, so its step is a choice and a deed.
      rw [← Turn.choose_act_eq_stepOnce hd (hs.allStand.get hd)] at herror
      rcases bind_error_iff.mp herror with hfirst | ⟨_, u, hfirst, hthen⟩
      · exact hchoose hs hfirst
      · have hu := hs.goes (.choose i)
        rw [hfirst] at hu
        exact hact hu hthen
  | sweep n => cases herror
  | erase i => cases herror
  | tick => exact htick herror

end stand

/-! ## One step, in two ways -/

/-- At every moment of a run, for every dot that there is, a single step is a
    choice and then a deed.  The same becomes of all dots, the same is printed
    and read, and the one stops the run exactly if the other does, for the same
    reason. -/
theorem simulate_eq_choose_then_act {w : World} {s : Scene} {i : Nat} {d : Dot} (h : Moment w s)
    (hd : s.dots[i]? = some d) :
    Turn.simulate w false i s = (Turn.choose w i >>= fun _ => Turn.act w i) s :=
  (Turn.choose_act_eq_stepOnce hd (h.allStand.get hd)).symm

/-- Two dots come to an operator between curly brackets at the same time. -/
def sameTime : String := "   .\n   |\n   |\n.-\x7b+\x7d"

/-- In the middle of the fourth tick, when both have chosen, a step of the second
    dot ends the first one; so do a choice and a deed. -/
theorem choose_then_act_at_sameTime :
    ∃ m s c t s' d, launchAlone sameTime = (m, none) ∧ Ticks m.world s c t s' ∧
      Moment m.world c ∧ c.dots[1]? = some d ∧
      (after? (Turn.simulate m.world false 1) c).map (·.dots.map Dot.isDead) =
        some [true, false] ∧
      Turn.simulate m.world false 1 c =
        (Turn.choose m.world 1 >>= fun _ => Turn.act m.world 1) c := by
  have htrial : trial sameTime 3 (fun _ c _ => c.dots[1]?.isSome &&
      (after? (Turn.simulate (launchAlone sameTime).1.world false 1) c).map
        (·.dots.map Dot.isDead) == some [true, false]) = true := by
    decide +kernel
  obtain ⟨m, s, c, t, s', hm, hs, htick, hcheck⟩ := exists_of_trial htrial
  rw [Bool.and_eq_true, beq_iff_eq, hm, Option.isSome_iff_exists] at hcheck
  obtain ⟨⟨d, hd⟩, hdead⟩ := hcheck
  have hc : Moment m.world c := by
    have hs' := ((Reachable.launched hm rfl).loop hs).moment
    exact (goes_chooseAll .any hs').moment htick.choosing
  exact ⟨m, s, c, t, s', d, hm, htick, hc, hd, hdead, simulate_eq_choose_then_act hc hd⟩

end Machine

end DotPaths
