import DotPaths.Proofs.Choice
import DotPaths.Proofs.Launch
import DotPaths.Proofs.Run

/-! # The ledger of a run

    The dots of a scene have no names, and a waiting dot counts its age by
    itself.  To say which dot is which and who came first, a ledger is kept beside
    a parallel run.  In it every dot has a ticket, on which is written how the dot
    came to be and in which tick it began to wait.  The program knows nothing of
    the ledger.

    The main statement is that the ledger is accurate: the tickets stand in the
    order of the dots, no two dots came to be in the same way, and the age of a
    waiting dot is the number of ticks since the one written on its ticket.
-/

namespace DotPaths

/-- A dot that waits after it has chosen has waited before, or it has only just
    begun. -/
theorem Dot.chosen_meet {w : World} {d d' : Dot} {m : Meeting} (h : d.chosen w = .ok d')
    (hm : d'.phase = .meet m) : d.phase = .meet m ∨ (∀ n, d.phase ≠ .meet n) ∧ m.age = 0 := by
  rcases chosen_ok h with rfl | ⟨c, phase, -, hphase, -, rfl⟩
  · cases hm
  · obtain rfl : phase = .meet m := hm
    rcases choose_meet hphase with hsame | ⟨hne, _, _, -, rfl⟩
    · exact .inl hsame
    · exact .inr ⟨hne, rfl⟩

/-- How a dot came to be. -/
inductive Origin where
  /-- It was put at this starting point. -/
  | start (p : Pos)
  /-- It set out as a copy in the tick `clock`, in the turn of the dot with number
      `turn` and in the direction `dir`. -/
  | copy (clock turn : Nat) (dir : Pos)
  deriving DecidableEq

/-- What is written down about a dot. -/
structure Ticket where
  origin : Origin
  /-- The tick in which the dot began to wait, the last time that it did. -/
  arrival : Option Nat := none
  deriving DecidableEq

/-- The tickets of all dots. -/
structure Ledger where
  /-- The tickets, in the order of the dots. -/
  tickets : List Ticket
  /-- The number of ticks so far. -/
  clock : Nat

namespace Ledger

/-! ## Keeping the ledger -/

/-- The ledger at the start of a run with these dots. -/
def opening (dots : List Dot) : Ledger :=
  { tickets := dots.map fun d => { origin := .start d.spawn }, clock := 0 }

/-- Does the dot with number `k` wait? -/
def waits (dots : List Dot) (k : Nat) : Bool :=
  dots[k]?.any fun d => d.phase.isWaiting

/-- The ledger when all dots have chosen: the tick is written down for those
    who begin to wait. -/
def chosen (l : Ledger) (before after : List Dot) : Ledger :=
  { l with tickets := l.tickets.mapIdx fun k t =>
      if !waits before k && waits after k then { t with arrival := some l.clock } else t }

/-- The tickets that a sweep keeps, with their dots. -/
def kept (l : Ledger) (dots : List Dot) : List (Ticket × Dot) :=
  (l.tickets.zip dots).filter fun p => !p.2.isDead

/-- The tickets of the copies that set out in the turns of a tick, from what the dots
    chose. -/
def copied (w : World) (clock : Nat) (chosen : List Dot) : List Ticket :=
  chosen.zipIdx.flatMap fun (d, turn) =>
    (d.copies w).map fun e => { origin := .copy clock turn e.dir }

/-- The ledger when all dots have acted: the tickets of the dead are taken away,
    and the dots that have set out get theirs. -/
def swept (l : Ledger) (w : World) (chosen acted : List Dot) : Ledger :=
  { tickets := (l.kept acted).map Prod.fst ++ copied w l.clock chosen, clock := l.clock + 1 }

/-- The tick in which the dot with number `k` began to wait. -/
def arrival? (l : Ledger) (k : Nat) : Option Nat :=
  l.tickets[k]?.bind Ticket.arrival

/-- The ledger tells the truth about the dots. -/
structure Accurate (l : Ledger) (dots : List Dot) : Prop where
  length : l.tickets.length = dots.length
  arrival : ∀ p ∈ l.tickets.zip dots, ∀ m, p.2.phase = .meet m →
    ∃ τ, p.1.arrival = some τ ∧ τ + m.age = l.clock
  /-- No two dots came to be in the same way. -/
  nodup : (l.tickets.map Ticket.origin).Nodup
  past : ∀ t ∈ l.tickets, ∀ clock turn dir, t.origin = .copy clock turn dir → clock < l.clock

variable {l : Ledger} {dots : List Dot}

theorem mem_copied {w : World} {clock : Nat} {t : Ticket} (h : t ∈ copied w clock dots) :
    ∃ turn dir, t = { origin := .copy clock turn dir } := by
  obtain ⟨⟨d, turn⟩, -, ht⟩ := List.mem_flatMap.mp h
  obtain ⟨e, -, rfl⟩ := List.mem_map.mp ht
  exact ⟨turn, e.dir, rfl⟩

/-- There is a ticket for each copy. -/
theorem length_copied (w : World) (clock : Nat) (dots : List Dot) :
    (copied w clock dots).length = (dots.flatMap (Dot.copies w)).length := by
  have hdots := List.zipIdx_map_fst 0 dots
  conv_rhs => rw [← hdots]
  rw [copied, List.length_flatMap, List.length_flatMap, List.map_map]
  simp [Function.comp_def]

/-- No two copies of a tick came to be in the same way: they set out in different
    turns or in different directions. -/
theorem nodup_copied (w : World) (clock : Nat) (dots : List Dot) :
    ((copied w clock dots).map Ticket.origin).Nodup := by
  unfold copied
  rw [List.map_flatMap]
  refine List.pairwise_flatMap.mpr ⟨?_, (pairwise_zipIdx dots 0).imp ?_⟩
  · rintro ⟨d, turn⟩ -
    have hdirs := d.nodup_dirs_copies w
    show (((d.copies w).map _).map Ticket.origin).Nodup
    rw [List.map_map]
    refine List.pairwise_map.mpr ((List.pairwise_map.mp hdirs).imp ?_)
    intro e e' hne heq
    exact hne (Origin.copy.inj heq).2.2
  · rintro ⟨d, turn⟩ ⟨d', turn'⟩ hlt x hx y hy heq
    obtain ⟨t, ht, rfl⟩ := List.mem_map.mp hx
    obtain ⟨t', ht', rfl⟩ := List.mem_map.mp hy
    obtain ⟨e, -, rfl⟩ := List.mem_map.mp ht
    obtain ⟨e', -, rfl⟩ := List.mem_map.mp ht'
    exact absurd (Origin.copy.inj heq).2.1 (Nat.ne_of_lt hlt)

theorem mem_zip {k : Nat} {t : Ticket} {d : Dot} (ht : l.tickets[k]? = some t)
    (hd : dots[k]? = some d) : (t, d) ∈ l.tickets.zip dots := by
  apply List.mem_of_getElem? (i := k)
  exact List.getElem?_zip_eq_some.mpr ⟨ht, hd⟩

/-- The age of a waiting dot says when it came. -/
theorem Accurate.arrival?_eq (h : Accurate l dots) {k a : Nat} {p : Pos} {role : Bool}
    (hw : Meeting.waited? p role dots k = some a) :
    ∃ τ, l.arrival? k = some τ ∧ τ + a = l.clock := by
  obtain ⟨d, m, hd, hm, -, -, rfl⟩ := Meeting.waited?_eq_some_iff.mp hw
  have hk := (List.getElem?_eq_some_iff.mp hd).1
  have ht := List.getElem?_eq_getElem (show k < l.tickets.length by rw [h.length]; exact hk)
  obtain ⟨τ, hτ, hage⟩ := h.arrival _ (mem_zip ht hd) m hm
  exact ⟨τ, by rw [arrival?, ht]; exact hτ, hage⟩

/-! ## Accuracy -/

/-- Whoever is a copy set out in an earlier tick. -/
theorem Accurate.clock_of_copy {clock turn : Nat} {dir : Pos} (h : Accurate l dots)
    (hcopy : .copy clock turn dir ∈ l.tickets.map Ticket.origin) : clock < l.clock := by
  obtain ⟨t, ht, horigin⟩ := List.mem_map.mp hcopy
  exact h.past t ht clock turn dir horigin

theorem accurate_opening (h : ∀ d ∈ dots, ∀ m, d.phase ≠ .meet m)
    (hspawn : (dots.map Dot.spawn).Nodup) : Accurate (opening dots) dots := by
  refine ⟨by simp [opening], ?_, ?_, ?_⟩
  · intro p hp m hm
    exact absurd hm (h p.2 (List.of_mem_zip hp).2 m)
  · show ((dots.map _).map Ticket.origin).Nodup
    rw [List.map_map]
    refine List.pairwise_map.mpr ((List.pairwise_map.mp hspawn).imp ?_)
    intro d d' hne heq
    exact hne (Origin.start.inj heq)
  · intro t ht clock turn dir horigin
    obtain ⟨d, -, rfl⟩ := List.mem_map.mp ht
    cases horigin

theorem origins_chosen (l : Ledger) (before after : List Dot) :
    (l.chosen before after).tickets.map Ticket.origin = l.tickets.map Ticket.origin := by
  apply List.ext_getElem?
  intro k
  simp only [chosen, List.getElem?_map, List.getElem?_mapIdx]
  cases l.tickets[k]? with
  | none => rfl
  | some t =>
    simp only [Option.map_some]
    split <;> rfl

/-- Choosing keeps the ledger accurate: whoever begins to wait has age zero. -/
theorem Accurate.chosen {w : World} {s c : Scene} (h : Accurate l s.dots)
    (hc : Machine.chooseAll w s.dots.length s = .ok () c) :
    Accurate (l.chosen s.dots c.dots) c.dots := by
  obtain ⟨hlen, hchosen⟩ := Machine.chooseAll_ok hc
  refine ⟨by simp [Ledger.chosen, h.length, hlen], ?_, ?_, ?_⟩
  · intro p hp m hm
    obtain ⟨k, hk⟩ := List.mem_iff_getElem?.mp hp
    obtain ⟨ht, hd'⟩ := List.getElem?_zip_eq_some.mp hk
    simp only [Ledger.chosen, List.getElem?_mapIdx] at ht
    obtain ⟨t, ht₀, htp⟩ := Option.map_eq_some_iff.mp ht
    have hks : k < s.dots.length := by
      rw [← hlen]; exact (List.getElem?_eq_some_iff.mp hd').1
    have hd := List.getElem?_eq_getElem hks
    have hafter : waits c.dots k = true := by
      simp [waits, hd', hm, Phase.isWaiting, Phase.meeting?]
    rcases Dot.chosen_meet (hchosen k _ _ hd hd') hm with hsame | ⟨hne, hage⟩
    · -- It has waited before: its ticket stays as it is.
      have hbefore : waits s.dots k = true := by
        simp [waits, hd, hsame, Phase.isWaiting, Phase.meeting?]
      rw [hbefore, hafter] at htp
      simp only [Bool.not_true, Bool.false_and, Bool.false_eq_true, if_false] at htp
      rw [← htp]
      exact h.arrival _ (mem_zip ht₀ hd) m hsame
    · -- It begins to wait: the present tick is written on its ticket.
      have hbefore : waits s.dots k = false := by
        simp only [waits, hd, Option.any_some, Phase.isWaiting]
        cases hph : s.dots[k].phase with
        | meet n => exact absurd hph (hne n)
        | _ => rfl
      rw [hbefore, hafter] at htp
      simp only [Bool.not_false, Bool.true_and, if_true] at htp
      rw [← htp]
      exact ⟨l.clock, rfl, by rw [hage]; rfl⟩
  · rw [origins_chosen]
    exact h.nodup
  · intro t ht clock turn dir horigin
    have hcopy := List.mem_map_of_mem (f := Ticket.origin) ht
    rw [origins_chosen, horigin] at hcopy
    exact h.clock_of_copy hcopy

/-- A sweep leaves the dots whose tickets are kept, and those that have set
    out. -/
theorem sweep_eq (hlen : l.tickets.length ≤ dots.length) :
    Machine.sweep l.tickets.length dots =
      (l.kept dots).map Prod.snd ++ dots.drop l.tickets.length := by
  have hsnd : (l.tickets.zip dots).map Prod.snd = dots.take l.tickets.length := by
    rw [List.zip_eq_zip_take_min, Nat.min_eq_left hlen, List.take_length]
    exact List.map_snd_zip (by rw [List.length_take]; exact Nat.min_le_left _ _)
  unfold Machine.sweep kept
  rw [← hsnd, List.filter_map]
  rfl

theorem zip_swept (w : World) (chosen : List Dot) (hlen : l.tickets.length ≤ dots.length) :
    (l.swept w chosen dots).tickets.zip (Machine.sweep l.tickets.length dots) =
      l.kept dots ++ (copied w l.clock chosen).zip (dots.drop l.tickets.length) := by
  have hpairs : ∀ ps : List (Ticket × Dot), (ps.map Prod.fst).zip (ps.map Prod.snd) = ps := by
    intro ps
    induction ps with
    | nil => rfl
    | cons p ps ih => simp [ih]
  rw [sweep_eq hlen]
  change ((l.kept dots).map Prod.fst ++ copied w l.clock chosen).zip _ = _
  rw [List.zip_append (by simp), hpairs]

/-- The tickets that are kept stay in order. -/
theorem origins_kept (l : Ledger) (dots : List Dot) :
    (((l.kept dots).map Prod.fst).map Ticket.origin).Sublist (l.tickets.map Ticket.origin) := by
  apply List.Sublist.map
  have hfst : ((l.tickets.zip dots).map Prod.fst).Sublist l.tickets := by
    rw [List.zip_eq_zip_take_min, List.map_fst_zip (by simp)]
    exact List.take_sublist _ _
  exact (List.filter_sublist.map _).trans hfst

/-- Acting and sweeping keep the ledger accurate: whoever still waits has waited
    one tick more, and whoever has set out does not wait. -/
theorem Accurate.swept {w : World} {c t : Scene} (h : Accurate l c.dots)
    (hround : Machine.Round w c c.dots.length t) :
    Accurate (l.swept w c.dots t.dots) (Machine.sweep c.dots.length t.dots) := by
  have hlen : l.tickets.length ≤ t.dots.length := by rw [h.length]; exact hround.length
  have horigins := origins_kept l t.dots
  -- The dots that have set out are the copies that have got tickets.
  have hnew : (copied w l.clock c.dots).length = (t.dots.drop l.tickets.length).length := by
    rw [length_copied, h.length, hround.new, List.take_length]
  rw [← h.length]
  refine ⟨?_, ?_, ?_, ?_⟩
  · rw [sweep_eq hlen, List.length_append, List.length_map, ← hnew]
    simp [Ledger.swept]
  · intro p hp m' hm'
    rw [zip_swept w c.dots hlen] at hp
    rcases List.mem_append.mp hp with hp | hp
    · -- Whoever waits now waited when the round began, one turn less.
      obtain ⟨k, hk⟩ := List.mem_iff_getElem?.mp (List.mem_filter.mp hp).1
      obtain ⟨ht, hd'⟩ := List.getElem?_zip_eq_some.mp hk
      obtain ⟨d, m, hd, hm, -, heq⟩ := hround.of_waiting hd' hm'
      rw [if_pos (List.getElem?_eq_some_iff.mp hd).1] at heq
      rw [heq] at hm'
      cases hm'
      obtain ⟨τ, hτ, hage⟩ := h.arrival _ (mem_zip ht hd) m hm
      refine ⟨τ, hτ, ?_⟩
      change τ + (m.age + 1) = l.clock + 1
      omega
    · obtain ⟨k, hk⟩ := List.mem_iff_getElem?.mp (List.of_mem_zip hp).2
      rw [List.getElem?_drop] at hk
      rw [hround.new_phase (by rw [h.length]; omega) hk] at hm'
      cases hm'
  · change (((l.kept t.dots).map Prod.fst ++ copied w l.clock c.dots).map Ticket.origin).Nodup
    rw [List.map_append]
    refine List.nodup_append.mpr ⟨h.nodup.sublist horigins, nodup_copied w l.clock c.dots, ?_⟩
    -- Those that were there before did not set out in this tick.
    rintro a ha b hb rfl
    obtain ⟨t₁, ht₁, rfl⟩ := List.mem_map.mp hb
    obtain ⟨turn, dir, rfl⟩ := mem_copied ht₁
    exact Nat.lt_irrefl _ (h.clock_of_copy (horigins.mem ha))
  · intro t₀ ht₀ clock turn dir horigin
    change clock < l.clock + 1
    rcases List.mem_append.mp ht₀ with hold | hnew
    · have hcopy := horigins.mem (List.mem_map_of_mem (f := Ticket.origin) hold)
      rw [horigin] at hcopy
      have hpast := h.clock_of_copy hcopy
      omega
    · obtain ⟨turn', dir', rfl⟩ := mem_copied hnew
      cases horigin
      omega

end Ledger

/-! ## The ledger of a run -/

namespace Machine

/-- A parallel run of a program comes to the scene, and its ledger to `l`. -/
inductive Chronicle (w : World) : Scene → Ledger → Prop where
  | launched {shelf : Shelf} {program : String} {parallel : Bool} {console : Console}
      {traced : Nat} {m : Machine} :
      launch shelf program parallel console traced = (m, none) → m.world = w →
      Chronicle w m.scene (.opening m.scene.dots)
  | ticked {s c t s' : Scene} {l : Ledger} : Chronicle w s l → Ticks w s c t s' →
      Chronicle w s' ((l.chosen s.dots c.dots).swept w c.dots t.dots)

namespace Chronicle

variable {w : World} {s s' : Scene} {l : Ledger}

/-- The ledger can be kept along every run. -/
theorem loop {n : Nat} (h : Chronicle w s l) (hn : Machine.loop w true n s = .ok () s') :
    ∃ l', Chronicle w s' l' := by
  induction n generalizing s l with
  | zero => cases hn; exact ⟨l, h⟩
  | succ n ih =>
    obtain ⟨t, ht, hn⟩ := loop_succ_ok hn
    obtain ⟨c, u, htick⟩ := parallelTick_ok_iff.mp ht
    exact ih (h.ticked htick) hn

/-- The ledger of a run is accurate. -/
theorem accurate (h : Chronicle w s l) : l.Accurate s.dots := by
  induction h with
  | launched hm hw =>
    refine Ledger.accurate_opening ?_ (nodup_spawn_launch hm)
    intro d hd
    exact ((launch_ok hm).2 d hd).not_waiting
  | ticked _ htick ih =>
    rw [htick.dots, ← htick.length]
    exact (ih.chosen htick.choosing).swept htick.round

end Chronicle

/-- A number of ticks with the ledger beside them, if they complete. -/
def follow (w : World) : Nat → Scene × Ledger → Option (Scene × Ledger)
  | 0, r => some r
  | n + 1, (s, l) =>
    (after? (chooseAll w s.dots.length) s).bind fun c =>
      (after? (actAll w s.dots.length) c).bind fun t =>
        (after? (Scene.tick w) { t with dots := sweep s.dots.length t.dots }).bind fun s' =>
          follow w n (s', (l.chosen s.dots c.dots).swept w c.dots t.dots)

theorem Chronicle.follow {w : World} {n : Nat} {s s' : Scene} {l l' : Ledger}
    (h : Chronicle w s l) (hn : Machine.follow w n (s, l) = some (s', l')) : Chronicle w s' l' := by
  induction n generalizing s l with
  | zero => cases hn; exact h
  | succ n ih =>
    simp only [Machine.follow, Option.bind_eq_some_iff, after?_eq_some_iff] at hn
    obtain ⟨c, hc, t, ht, s₁, hs₁, hn⟩ := hn
    exact ih (h.ticked ⟨hc, ht, hs₁⟩) hn

/-- For a program by itself: in the tick after the first `n` ones, does the turn
    of the dot with number `i` complete, and do the ledger, the scene after the
    choosing and the scene before this turn pass the check? -/
def trialTurn (program : String) (n i : Nat) (check : Ledger → Scene → Scene → Bool) : Bool :=
  match launchAlone program with
  | (m, none) =>
    (follow m.world n (m.scene, .opening m.scene.dots)).any fun r =>
      (after? (chooseAll m.world r.1.dots.length) r.1).any fun c =>
        (after? (actAll m.world i) c).any fun u =>
          (after? (Turn.act m.world i) u).any fun _ => check (r.2.chosen r.1.dots c.dots) c u
  | _ => false

theorem exists_of_trialTurn {program : String} {n i : Nat}
    {check : Ledger → Scene → Scene → Bool} (h : trialTurn program n i check = true) :
    ∃ m s l c u u', launchAlone program = (m, none) ∧ Chronicle m.world s l ∧
      chooseAll m.world s.dots.length s = .ok () c ∧ actAll m.world i c = .ok () u ∧
      Turn.act m.world i u = .ok () u' ∧ check (l.chosen s.dots c.dots) c u = true := by
  unfold trialTurn at h
  split at h
  · next m hm =>
    simp only [Option.any_eq_true, after?_eq_some_iff] at h
    obtain ⟨⟨s, l⟩, hs, c, hc, u, hu, u', hu', hcheck⟩ := h
    have hopen : Chronicle m.world m.scene (.opening m.scene.dots) := .launched hm rfl
    exact ⟨m, s, l, c, u, u', hm, hopen.follow hs, hc, hu, hu', hcheck⟩
  · cases h

end Machine

end DotPaths
