import DotPaths.Proofs.Expansion
import DotPaths.Proofs.Notes

/-! # Brackets

    Passages into libraries and out of them fit together like brackets: a way out
    closes the last way in that is still open.  What a dot remembers are the
    entrances of the passages that it has not closed, over its whole history, and
    a dot that sets out at a crossing has the history of the dot that it comes
    from.

    The history is kept by an observer beside the run.  The run stops with a dot
    that never entered a library exactly when a dot is about to go out and all
    its passages are closed.
-/

namespace DotPaths

/-! ## Balanced passages -/

/-- Every way in is closed by a way out, and no way out is left over. -/
inductive Balanced : List Passage → Prop where
  | nil : Balanced []
  | nest {p : Pos} {inner rest : List Passage} (hinner : Balanced inner) (hrest : Balanced rest) :
      Balanced (.into p :: inner ++ .out :: rest)

/-- The entrances of the ways in that are not closed, the oldest first. -/
inductive Unmatched : List Passage → List Pos → Prop where
  | closed {passages : List Passage} (h : Balanced passages) : Unmatched passages []
  | into {p : Pos} {before after : List Passage} {open_ : List Pos} (hbefore : Balanced before)
      (hafter : Unmatched after open_) : Unmatched (before ++ .into p :: after) (p :: open_)

theorem Balanced.append {a b : List Passage} (ha : Balanced a) (hb : Balanced b) :
    Balanced (a ++ b) := by
  induction ha with
  | nil => exact hb
  | @nest p inner rest hinner _ _ ih =>
    have hnest : Balanced (.into p :: inner ++ .out :: (rest ++ b)) := .nest hinner ih
    simpa using hnest

namespace Unmatched

variable {passages : List Passage} {ps qs : List Pos} {p : Pos}

theorem nil : Unmatched [] [] := .closed .nil

/-- One more way in. -/
theorem enter (h : Unmatched passages ps) (p : Pos) :
    Unmatched (passages ++ [.into p]) (ps ++ [p]) := by
  induction h with
  | closed h => exact .into h nil
  | @into q before after ps hbefore _ ih =>
    have hinto : Unmatched (before ++ .into q :: (after ++ [.into p])) (q :: (ps ++ [p])) :=
      .into hbefore ih
    simpa using hinto

/-- One more way out closes the last way in. -/
theorem leave (h : Unmatched passages (ps ++ [p])) : Unmatched (passages ++ [.out]) ps := by
  induction ps generalizing passages with
  | nil =>
    cases h with
    | @into _ before after _ hbefore hafter =>
      cases hafter with
      | closed hafter =>
        have hclosed : Balanced (before ++ (.into p :: after ++ .out :: [])) :=
          hbefore.append (.nest hafter .nil)
        refine .closed ?_
        simpa using hclosed
  | cons q ps ih =>
    cases h with
    | @into _ before after _ hbefore hafter =>
      have hinto : Unmatched (before ++ .into q :: (after ++ [.out])) (q :: ps) :=
        .into hbefore (ih hafter)
      simpa using hinto

/-- The entrances of the open ways in, the last one first, if passages follow on
    those in `stack`. -/
def openAfter : List Pos → List Passage → Option (List Pos)
  | stack, [] => some stack
  | stack, .into p :: rest => openAfter (p :: stack) rest
  | _ :: stack, .out :: rest => openAfter stack rest
  | [], .out :: _ => none

theorem openAfter_balanced {a : List Passage} (h : Balanced a) (stack : List Pos)
    (rest : List Passage) : openAfter stack (a ++ rest) = openAfter stack rest := by
  induction h generalizing stack rest with
  | nil => rfl
  | @nest p inner after _ _ ihinner ihafter =>
    calc openAfter stack (.into p :: inner ++ .out :: after ++ rest)
        = openAfter (p :: stack) (inner ++ (.out :: (after ++ rest))) := by simp [openAfter]
      _ = openAfter (p :: stack) (.out :: (after ++ rest)) := ihinner _ _
      _ = openAfter stack (after ++ rest) := rfl
      _ = openAfter stack rest := ihafter _ _

theorem openAfter_eq (h : Unmatched passages ps) (stack : List Pos) :
    openAfter stack passages = some (ps.reverse ++ stack) := by
  induction h generalizing stack with
  | closed h =>
    have hall := openAfter_balanced h stack []
    rw [List.append_nil] at hall
    exact hall
  | @into p before after ps hbefore _ ih =>
    rw [openAfter_balanced hbefore]
    show openAfter (p :: stack) after = _
    rw [ih]
    simp

/-- Passages leave open what they leave open, and nothing else. -/
theorem unique (h : Unmatched passages ps) (h' : Unmatched passages qs) : ps = qs := by
  have hsame := (h.openAfter_eq []).symm.trans (h'.openAfter_eq [])
  simpa using hsame

end Unmatched

/-! ## Histories -/

/-- What a historian has written down. -/
structure Annals where
  /-- For each dot of the scene its history: what it was whenever it acted, the
      oldest first. -/
  histories : List (List Dot)
  /-- Every act: the history of the dot up to it, the dot as it acts, and as it is
      after that. -/
  acts : List (List Dot × Dot × Dot)

/-- The annals before anything has happened to `n` dots. -/
def Annals.opening (n : Nat) : Annals := ⟨List.replicate n [], []⟩

/-- The histories of the dots that are left when the dead among the first `n` are
    taken away. -/
def Annals.sweep (n : Nat) (dots : List Dot) (histories : List (List Dot)) : List (List Dot) :=
  (((dots.zip histories).take n).filter fun x => !x.1.isDead).map Prod.snd ++ histories.drop n

/-- An observer who keeps the history of every dot.  A dot that sets out has that
    of the dot which acts. -/
def historian : Observer Annals where
  stepped i s t g :=
    match s.dots[i]?, t.dots[i]?, g.histories[i]? with
    | some d, some d', some history =>
      { histories := g.histories.set i (history ++ [d]) ++
          List.replicate (t.dots.length - s.dots.length) (history ++ [d])
        acts := g.acts ++ [(history, d, d')] }
    | _, _, _ => g
  erased i g := { g with histories := g.histories.eraseIdx i }
  swept n dots g := { g with histories := Annals.sweep n dots g.histories }

/-- The run of a machine with the historian beside it. -/
def Machine.annals (m : Machine) (fuel : Nat) : EStateM.Result Stop (Scene × Annals) Unit :=
  Observed.loop historian m.world m.parallel fuel (m.scene, .opening m.scene.dots.length)

/-! ## What a dot remembers -/

/-- The position is that of an entrance with a destination. -/
def World.IsEntrance (w : World) (p : Pos) : Prop :=
  ∃ c v q, w.cell? p = some c ∧ c.kind = .warp v ∧ v.role = .entrance ∧ v.target = some q

/-- The passages in a history. -/
def Dot.passages (w : World) (history : List Dot) : List Passage :=
  history.filterMap (Dot.passage? w)

/-- The dot remembers what its history leaves open, and these are entrances. -/
structure Dot.Remembers (w : World) (d : Dot) (history : List Dot) : Prop where
  unmatched : Unmatched (Dot.passages w history) d.stack.reverse
  entrances : ∀ p ∈ d.stack, w.IsEntrance p

/-- Only the roles of a program occur. -/
def World.HasUsualRoles (w : World) : Prop :=
  ∀ p c, w.cell? p = some c → Usual c

theorem World.hasUsualRoles {shelf : Shelf} {program : String} {w : World}
    (h : build shelf program = .ok w) : w.HasUsualRoles := by
  intro p c hc
  unfold World.cell? at hc
  split at hc
  · cases hc
  · obtain ⟨row, hrow, hc⟩ := Option.bind_eq_some_iff.mp hc
    exact build_usual h row (List.mem_of_getElem? hrow) c (List.mem_of_getElem? hc)

namespace Dot

variable {w : World} {d d' : Dot} {history : List Dot}

theorem passages_append (w : World) (history : List Dot) (d : Dot) :
    passages w (history ++ [d]) = passages w history ++ (d.passage? w).toList := by
  unfold passages
  rw [List.filterMap_append]
  cases h : d.passage? w with
  | none => simp [h]
  | some p => simp [h]

/-- What a dot remembers is all that matters. -/
theorem Remembers.congr (h : d.Remembers w history) (hstack : d'.stack = d.stack) :
    d'.Remembers w history :=
  ⟨hstack ▸ h.unmatched, hstack ▸ h.entrances⟩

/-- Without a passage the act is no part of what matters. -/
theorem Remembers.quiet (h : d.Remembers w history) (hnone : d.passage? w = none) :
    d.Remembers w (history ++ [d]) := by
  refine ⟨?_, h.entrances⟩
  rw [passages_append, hnone, Option.toList_none, List.append_nil]
  exact h.unmatched

/-- The step lemma: a dot that moves remembers what its longer history leaves
    open. -/
theorem Remembers.moves (hroles : w.HasUsualRoles) (h : d.Remembers w history)
    (hmoves : d.Moves w d') : d'.Remembers w (history ++ [d]) := by
  cases hmoves with
  | stay hnone _ hstack => exact (h.quiet hnone).congr hstack
  | walk hnone _ hstack => exact (h.quiet hnone).congr hstack
  | warp hnone _ _ hstack => exact (h.quiet hnone).congr hstack
  | @enter c v q hpassage hcell hkind hrole hreturn htarget _ hstack =>
    -- Letters are not remembered, and exposed cells lead back.
    have hentrance : v.role = .entrance := by
      rcases hroles _ c hcell v hkind with hr | hr | hr
      · rw [hr] at hrole
        cases hrole
      · exact hr
      · rw [hr] at hreturn
        cases hreturn
    refine ⟨?_, ?_⟩
    · rw [passages_append, hpassage, hstack, List.reverse_cons]
      exact h.unmatched.enter d.pos
    · intro p hp
      rw [hstack] at hp
      rcases List.mem_cons.mp hp with rfl | hp
      · exact ⟨c, v, q, hcell, hkind, hentrance, htarget⟩
      · exact h.entrances p hp
  | @leave p stack hpassage hbefore _ _ hstack =>
    refine ⟨?_, ?_⟩
    · have hopen := h.unmatched
      rw [hbefore, List.reverse_cons] at hopen
      rw [passages_append, hpassage, hstack]
      exact hopen.leave
    · intro q hq
      refine h.entrances q ?_
      rw [hbefore]
      exact List.mem_cons_of_mem p (hstack ▸ hq)

/-- A dot that sets out remembers what the one remembers that it comes from. -/
theorem Remembers.copies {n : Dot} (h : d.Remembers w history) (hn : n ∈ d.copies w) :
    n.Remembers w (history ++ [d]) := by
  unfold Dot.copies at hn
  split at hn
  · next hcross =>
    -- Over a crossing there is no passage.
    have hnone : d.passage? w = none := by
      have hglyph := hcross.2
      unfold World.hasGlyph at hglyph
      cases hc : w.cell? d.pos with
      | none =>
        rw [hc] at hglyph
        cases hglyph
      | some c =>
        rw [hc] at hglyph
        refine passage?_of_not_over hc ?_
        have hstar : c.glyph = '*' := by simpa using hglyph
        simp [travelsOver, hstar]
    obtain ⟨dir, -, rfl⟩ := List.mem_map.mp hn
    exact (h.quiet hnone).congr rfl
  · cases hn

end Dot

/-! ## What the annals show -/

theorem forall₂_sweep {R : Dot → List Dot → Prop} {dots : List Dot} {histories : List (List Dot)}
    (h : List.Forall₂ R dots histories) (n : Nat) :
    List.Forall₂ R (Machine.sweep n dots) (Annals.sweep n dots histories) := by
  induction h generalizing n with
  | nil =>
    unfold Machine.sweep Annals.sweep
    simp
  | @cons d history dots histories hd htail ih =>
    cases n with
    | zero =>
      unfold Machine.sweep Annals.sweep
      simpa using ⟨hd, htail⟩
    | succ n =>
      have hrest := ih n
      unfold Machine.sweep Annals.sweep at hrest ⊢
      cases hdead : d.isDead with
      | true => simpa [hdead] using hrest
      | false => simpa [hdead] using ⟨hd, hrest⟩

/-- What is known about an act in any run. -/
structure IsAct (w : World) (history : List Dot) (d d' : Dot) : Prop where
  before : d.Remembers w history
  after : d'.Remembers w (history ++ [d])
  /-- A dot that goes out comes out where it went in last. -/
  out : d.passage? w = some .out →
    ∃ p stack, d.stack = p :: stack ∧ d'.stack = stack ∧ d'.pos = p + d.dir

/-- The annals tell the truth about the dots. -/
structure Annals.Accurate (w : World) (dots : List Dot) (g : Annals) : Prop where
  histories : List.Forall₂ (Dot.Remembers w) dots g.histories
  acts : ∀ x ∈ g.acts, IsAct w x.1 x.2.1 x.2.2

/-- The dots that go on, and those that set out, have their histories. -/
theorem Turn.Acts.histories {w : World} {i : Nat} {c : Cell} {d d' : Dot} {rest : List Dot}
    {s t : Scene} {histories : List (List Dot)} {history : List Dot} (hroles : w.HasUsualRoles)
    (hacts : Turn.Acts w i c d d' rest s t)
    (h : List.Forall₂ (Dot.Remembers w) s.dots histories) (hd : d.Remembers w history) :
    List.Forall₂ (Dot.Remembers w) t.dots (histories.set i (history ++ [d]) ++
      List.replicate (t.dots.length - s.dots.length) (history ++ [d])) := by
  have hi := (List.getElem?_eq_some_iff.mp hacts.dot).1
  have hself : (d'.settled w).Remembers w (history ++ [d]) :=
    (hd.moves hroles hacts.moves).congr (Dot.settled_stack w d')
  rw [hacts.dots]
  cases hacts.does with
  | @alone _ new _ hgoes _ =>
    rw [List.set_append_left _ _ hi, List.length_append, List.length_set, Nat.add_sub_cancel_left]
    refine List.rel_append (forall₂_set h i hself) ?_
    rw [hgoes.new]
    clear hgoes
    have hall : ∀ n ∈ d.copies w, n.Remembers w (history ++ [d]) := fun n hn => hd.copies hn
    generalize d.copies w = new at hall
    induction new with
    | nil => exact .nil
    | cons n new ih =>
      exact .cons (hall n (by simp)) (ih fun n' hn' => hall n' (by simp [hn']))
  | wait =>
    rw [List.length_set, Nat.sub_self, List.replicate_zero, List.append_nil]
    exact forall₂_set h i hself
  | meet _ _ _ _ ho =>
    rw [List.length_set, List.length_set, Nat.sub_self, List.replicate_zero, List.append_nil]
    refine forall₂_set (forall₂_set_left h ho ?_) i hself
    exact fun _ hR => hR.congr rfl

theorem historian_maintains {w : World} (hroles : w.HasUsualRoles) :
    historian.Maintains w (Annals.Accurate w) where
  deaf := ⟨fun _ _ => rfl, fun _ _ => rfl⟩
  ticked _ _ := rfl
  moved _ _ := rfl
  rephased := by
    intro dots g i d phase h hd
    exact ⟨forall₂_set_left h.histories hd fun _ hR => hR.congr rfl, h.acts⟩
  erased i h := ⟨forall₂_eraseIdx h.histories i, h.acts⟩
  swept n h := ⟨forall₂_sweep h.histories n, h.acts⟩
  stepped := by
    intro s t g i c d d' rest h hacts
    obtain ⟨history, hhistory, hd⟩ := forall₂_getElem? h.histories hacts.dot
    have hi := hacts.does.lt_length (List.getElem?_eq_some_iff.mp hacts.dot).1
    have hafter : t.dots[i]? = some (d'.settled w) := by
      rw [hacts.dots]
      exact List.getElem?_set_self hi
    have hnotes : historian.stepped i s t g =
        { histories := g.histories.set i (history ++ [d]) ++
            List.replicate (t.dots.length - s.dots.length) (history ++ [d])
          acts := g.acts ++ [(history, d, d'.settled w)] } := by
      simp only [historian, hacts.dot, hafter, hhistory]
    rw [hnotes]
    refine ⟨hacts.histories hroles h.histories hd, ?_⟩
    intro x hx
    rcases List.mem_append.mp hx with hold | hnew
    · exact h.acts x hold
    · obtain rfl := List.mem_singleton.mp hnew
      refine ⟨hd, (hd.moves hroles hacts.moves).congr (Dot.settled_stack w d'), ?_⟩
      intro hout
      -- Of all moves only leaving is a way out.
      cases hacts.moves with
      | stay hpassage | walk hpassage | warp hpassage | enter hpassage =>
        cases hpassage.symm.trans hout
      | @leave p stack _ hbefore _ hplace hstack =>
        exact ⟨p, stack, hbefore, (Dot.settled_stack w d').trans hstack,
          (Dot.settled_pos w d').trans hplace⟩

/-! ## Going out in vain -/

namespace Dot

variable {w : World} {c : Cell} {d d' : Dot}

/-- The fault of a dot that never entered the library. -/
def vainFault (d : Dot) : Fault :=
  match d.describe with
  | .ok text => .neverEntered text
  | .error f => .arith f

/-- To make a passage out is to leave. -/
theorem deed_of_out (hc : w.cell? d.pos = some c) (hout : d.passage? w = some .out) :
    d.deed w c = d.leave := by
  have hphase : d.phase = .travel := by
    by_contra hne
    rw [passage?_of_phase hne] at hout
    cases hout
  have hover : d.travelsOver c = true := by
    by_contra hne
    rw [passage?_of_not_over hc (by simpa using hne)] at hout
    cases hout
  rw [passage?_of_over hc hover] at hout
  have hplain : isTurn c d.dir = false ∧ (c.glyph == '*') = false := by
    simp [travelsOver, hphase] at hover
    simp [hover]
  unfold deed travelDeed
  rw [hphase]
  simp only [hplain, Bool.false_eq_true, if_false]
  cases hwarp : c.kind.warp? with
  | none =>
    rw [hwarp] at hout
    cases hout
  | some v =>
    rw [hwarp] at hout
    by_cases hexposed : v.role = .exposed
    · simp [hexposed]
    · simp only [if_neg hexposed] at hout
      split at hout <;> cases hout

/-- Of the dots that travel, only one that goes out in vain stops the run as one that
    never entered. -/
theorem travelDeed_neverEntered {text : String} (hphase : d.phase = .travel)
    (hc : w.cell? d.pos = some c)
    (h : d.travelDeed w c = .stop d' (.fault (.neverEntered text))) :
    d' = d ∧ d.passage? w = some .out ∧ d.stack = [] ∧ d.describe = .ok text := by
  unfold travelDeed at h
  split at h
  · cases h
  · next hturn =>
    split at h
    · cases h
    · next hstar =>
      have hpassage := passage?_of_over hc (travelsOver_of_travel hphase hturn hstar)
      split at h
      · next v hwarp =>
        split at h
        · next hexposed =>
          -- Only the way out looks at what the dot remembers.
          rw [hwarp] at hpassage
          simp only [beq_iff_eq] at hexposed
          simp only [hexposed, if_true] at hpassage
          unfold leave at h
          split at h
          · next hstack =>
            split at h
            · next text' htext =>
              cases h
              exact ⟨rfl, hpassage, hstack, htext⟩
            · cases h
          · cases h
        · unfold warpThrough at h
          dsimp only at h
          split at h <;> cases h
      · cases h

/-- Only a dot that goes out in vain stops the run as one that never entered. -/
theorem deed_neverEntered {text : String} (hc : w.cell? d.pos = some c)
    (h : d.deed w c = .stop d' (.fault (.neverEntered text))) :
    d' = d ∧ d.passage? w = some .out ∧ d.stack = [] ∧ d.describe = .ok text := by
  have hnever : ∀ {deed : Deed} {P : Stop → Prop}, deed.Stops P →
      deed = .stop d' (.fault (.neverEntered text)) → P (.fault (.neverEntered text)) := by
    intro deed P hstops heq
    rw [heq] at hstops
    exact hstops
  unfold deed at h
  cases hphase : d.phase with
  | travel =>
    rw [hphase] at h
    exact travelDeed_neverEntered hphase hc h
  -- Those that read numbers or print stop for other reasons, if at all.
  | value e =>
    rw [hphase] at h
    exact (hnever (P := fun _ => False) entryDeed_stops h).elim
  | ident e =>
    rw [hphase] at h
    exact (hnever (P := fun _ => False) entryDeed_stops h).elim
  | quote q =>
    rw [hphase] at h
    exact (hnever (P := fun _ => False) quoteDeed_stops h).elim
  | print p =>
    rw [hphase] at h
    obtain ⟨f, hf⟩ := hnever (P := fun e => ∃ f, e = .fault (.arith f))
      (printDeed_stops (fun f => ⟨f, rfl⟩) p) h
    cases hf
  | _ =>
    rw [hphase] at h
    cases h

/-- Going out in vain stops the run. -/
theorem perform_vain {i : Nat} {s : Scene} (hd : s.dots[i]? = some d)
    (hc : w.cell? d.pos = some c) (hout : d.passage? w = some .out) (hstack : d.stack = []) :
    Turn.perform c i (d.deed w c) s = .error (.fault d.vainFault) s := by
  have hsame : s.dots.set i d = s.dots := by
    obtain ⟨hi, rfl⟩ := List.getElem?_eq_some_iff.mp hd
    simp
  have hdeed : d.deed w c = .stop d (.fault d.vainFault) := by
    rw [deed_of_out hc hout]
    unfold leave vainFault
    rw [hstack]
    cases d.describe with
    | ok text => rfl
    | error f => rfl
  rw [hdeed]
  show EStateM.Result.error _ { s with dots := s.dots.set i d } = _
  rw [hsame]

end Dot

/-! ## Runs -/

namespace Machine

/-- A run of at most `fuel` ticks is well bracketed. -/
structure Bracketed (m : Machine) (fuel : Nat) : Prop where
  /-- The historian stands beside the run and does not touch it. -/
  run : Observed.plain (m.annals fuel) = loop m.world m.parallel fuel m.scene
  /-- Whenever a dot acts, however the run ends, it remembers what its history leaves
      open, before and after that. -/
  acts : ∀ history d d', (history, d, d') ∈ (Observed.notes (m.annals fuel)).acts →
    IsAct m.world history d d'
  /-- So do the dots that are there in the end. -/
  dots : ∀ s g, m.annals fuel = .ok () (s, g) →
    List.Forall₂ (Dot.Remembers m.world) s.dots g.histories
  /-- If the run stops with a dot that never entered, then a dot goes out whose history
      leaves nothing open. -/
  vain : ∀ s g text, m.annals fuel = .error (.fault (.neverEntered text)) (s, g) →
    ∃ (i : Nat) (d : Dot) (history : List Dot), s.dots[i]? = some d ∧
      g.histories[i]? = some history ∧ d.passage? m.world = some .out ∧
      d.describe = .ok text ∧ Unmatched (Dot.passages m.world history) []
  /-- And to act as such a dot stops the run. -/
  stops : ∀ (i : Nat) (c : Cell) (d : Dot) (s : Scene) (history : List Dot),
    s.dots[i]? = some d → m.world.cell? d.pos = some c → d.passage? m.world = some .out →
    d.Remembers m.world history → Unmatched (Dot.passages m.world history) [] →
    Turn.perform c i (d.deed m.world c) s = .error (.fault d.vainFault) s

/-- Every run of a launched program is well bracketed, in either schedule and of any
    length. -/
theorem runs_bracketed {shelf : Shelf} {program : String} {parallel : Bool} {console : Console}
    {traced : Nat} {m : Machine} (hlaunch : launch shelf program parallel console traced = (m, none))
    (fuel : Nat) : m.Bracketed fuel := by
  obtain ⟨hbuild, hborn⟩ := launch_ok hlaunch
  have hopening : Annals.Accurate m.world m.scene.dots (.opening m.scene.dots.length) := by
    refine ⟨?_, fun x hx => by cases hx⟩
    -- Whoever has just started has been nowhere and remembers nothing.
    have hall : ∀ d ∈ m.scene.dots, d.Remembers m.world [] := by
      intro d hd
      have hstack := (hborn d hd).stack
      exact ⟨hstack ▸ .nil, fun p hp => by rw [hstack] at hp; cases hp⟩
    unfold Annals.opening
    generalize m.scene.dots = dots at hall
    induction dots with
    | nil => exact .nil
    | cons d dots ih => exact .cons (hall d (by simp)) (ih fun d' hd' => hall d' (by simp [hd']))
  have hmaintained : Observed.Maintained m.world (Annals.Accurate m.world)
      (Observed.loop historian m.world m.parallel fuel)
      (m.scene, .opening m.scene.dots.length) :=
    Observed.loop_maintained (historian_maintains (World.hasUsualRoles hbuild)) m.parallel fuel
      ⟨(Reachable.launched hlaunch rfl).allStand, hopening⟩
  refine ⟨?run, ?acts, ?dots, ?vain, ?stops⟩
  case run => exact Observed.loop_follows historian m.world m.parallel fuel _
  case acts =>
    intro history d d' hmem
    obtain ⟨dots, haccurate⟩ := hmaintained.exists_dots
    exact haccurate.acts _ hmem
  case dots => exact fun s g hok => (hmaintained.ok hok).2.histories
  case vain =>
    intro s g text hstop
    obtain ⟨r, haccurate, hmachine | ⟨i, d, c, d', hd, hc, hdeed, hs⟩⟩ := hmaintained.error hstop
    · exact hmachine.elim
    · obtain ⟨rfl, hout, hstack, htext⟩ := Dot.deed_neverEntered hc hdeed
      obtain ⟨history, hhistory, hremembers⟩ := forall₂_getElem? haccurate.histories hd
      have hi := (List.getElem?_eq_some_iff.mp hd).1
      refine ⟨i, d', history, ?_, hhistory, hout, htext, ?_⟩
      · rw [show s = _ from hs]
        exact List.getElem?_set_self hi
      · have hopen := hremembers.unmatched
        rw [hstack] at hopen
        exact hopen
  case stops =>
    intro i c d s history hd hc hout hremembers hclosed
    refine Dot.perform_vain hd hc hout ?_
    have hempty := hremembers.unmatched.unique hclosed
    simpa using hempty

/-- Does an act of a launched program pass the check? -/
def actTrial (launched : Machine × Option Stop) (fuel : Nat)
    (check : World → List Dot → Dot → Dot → Bool) : Bool :=
  noteTrial historian (fun m => .opening m.scene.dots.length) launched fuel fun w g =>
    g.acts.any fun x => check w x.1 x.2.1 x.2.2

theorem exists_of_actTrial {launched : Machine × Option Stop} {fuel : Nat}
    {check : World → List Dot → Dot → Dot → Bool} (h : actTrial launched fuel check = true) :
    ∃ m history d d', launched = (m, none) ∧
      (history, d, d') ∈ (Observed.notes (m.annals fuel)).acts ∧
      check m.world history d d' = true := by
  obtain ⟨m, s, g, hm, hrun, hcheck⟩ := exists_of_noteTrial h
  obtain ⟨⟨history, d, d'⟩, hmem, hcheck⟩ := List.any_eq_true.mp hcheck
  refine ⟨m, history, d, d', hm, ?_, hcheck⟩
  unfold Machine.annals
  rw [hrun]
  exact hmem

/-- A library that uses another one. -/
def throughNested : Machine × Option Stop :=
  launch ⟨⟨[(["l.dots"], "%^X\n%!m.dots M\nX-M-X".toList), (["m.dots"], "%^Y\nY-Y".toList)]⟩, []⟩
    "%!l.dots L\n.-L-" true (.start .recorder 0 0 [] [] []) 0

/-- The dot goes into both libraries, and out of the inner one first, by the alias in
    the outer one. -/
theorem bracketed_at_throughNested :
    ∃ m history d d', throughNested = (m, none) ∧
      (history, d, d') ∈ (Observed.notes (m.annals 9)).acts ∧
      Unmatched (Dot.passages m.world history) [⟨2, 1⟩, ⟨2, 4⟩] ∧
      Unmatched (Dot.passages m.world (history ++ [d])) [⟨2, 1⟩] ∧ d'.pos = ⟨3, 4⟩ := by
  have htrial : actTrial throughNested 9 (fun w _ d _ =>
      decide (d.passage? w = some .out) && decide (d.stack = [⟨2, 4⟩, ⟨2, 1⟩]) &&
        decide (d.dir = .right)) = true := by
    decide +kernel
  obtain ⟨m, history, d, d', hm, hmem, hcheck⟩ := exists_of_actTrial htrial
  simp only [Bool.and_eq_true, decide_eq_true_eq] at hcheck
  obtain ⟨⟨hout, hstack⟩, hdir⟩ := hcheck
  have hact := (runs_bracketed hm 9).acts history d d' hmem
  have hbefore := hact.before.unmatched
  have hafter := hact.after.unmatched
  obtain ⟨p, stack, hd, hd', hpos⟩ := hact.out hout
  cases hstack.symm.trans hd
  rw [hd] at hbefore
  rw [hd'] at hafter
  rw [hdir] at hpos
  exact ⟨m, history, d, d', hm, hmem, hbefore, hafter, hpos⟩

/-- The exposed character of this library is a slanted wall. -/
def turnedBack : Machine × Option Stop :=
  launch ⟨⟨[(["l.dots"], "%^/\n/-/".toList)]⟩, []⟩ "%!l.dots L\n.-L-" true
    (.start .recorder 0 0 [] [] []) 0

/-- A dot may travel onto an exposed cell and not come out: the cell turns it. -/
theorem exposed_may_turn :
    ¬ ∀ (shelf : Shelf) (program : String) (parallel : Bool) (console : Console) (traced : Nat)
        (m : Machine) (fuel : Nat) (history : List Dot) (d d' : Dot) (c : Cell) (v : Warp),
      launch shelf program parallel console traced = (m, none) →
      (history, d, d') ∈ (Observed.notes (m.annals fuel)).acts → d.phase = .travel →
      m.world.cell? d.pos = some c → c.kind = .warp v → v.role = .exposed →
      ∃ p stack, d.stack = p :: stack ∧ d'.stack = stack ∧ d'.pos = p + d.dir := by
  intro hall
  have htrial : actTrial turnedBack 5 (fun w _ d d' =>
      decide (d.phase = .travel) && decide (d.stack = [⟨2, 1⟩]) && decide (d'.stack = d.stack) &&
        (w.cell? d.pos).any fun c => c.kind.warp?.any fun v => v.role == .exposed) = true := by
    decide +kernel
  obtain ⟨m, history, d, d', hm, hmem, hcheck⟩ := exists_of_actTrial htrial
  simp only [Bool.and_eq_true, decide_eq_true_eq, Option.any_eq_true, beq_iff_eq] at hcheck
  obtain ⟨⟨⟨hphase, hstack⟩, hsame⟩, c, hc, v, hwarp, hrole⟩ := hcheck
  have hkind : c.kind = .warp v := by
    cases hk : c.kind with
    | warp u =>
      rw [hk] at hwarp
      cases hwarp
      rfl
    | _ =>
      rw [hk] at hwarp
      cases hwarp
  obtain ⟨p, stack, hd, hd', -⟩ :=
    hall _ _ _ _ _ m 5 history d d' c v hm hmem hphase hc hkind hrole
  rw [hsame, hd] at hd'
  exact absurd hd' (by simp)

end Machine

end DotPaths
