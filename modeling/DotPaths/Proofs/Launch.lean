import DotPaths.Machine.Run
import DotPaths.Proofs.Cells

/-! # Launching

    A program is launched by building its world and putting a dot at every
    starting point.  Starting points are marked last, so in a built world every
    one of them is a point.  A dot that is put there travels in one of the four
    directions, or it has found no path and is dead.
-/

namespace DotPaths

namespace World

/-! ## Starting points of a built world -/

/-- None of the cells is marked as a starting point. -/
def NoStart (rows : List (List Cell)) : Prop :=
  ∀ row ∈ rows, ∀ c ∈ row, c.kind.isStart = false

/-- Starting points are not marked while the texts are drawn. -/
theorem noStart_keptByDrawing : KeptByDrawing fun c => c.kind.isStart = false where
  plain _ := rfl
  exposed _ _ := rfl
  letter _ := rfl
  entrance _ := rfl
  number linkFor c h := by
    rcases number_cases linkFor c with hsame | ⟨v, -, hnumber⟩
    · rw [hsame]
      exact h
    · rw [hnumber]
      rfl

/-! ### Finishing -/

theorem markOperators_isStart {before : Option Char} {row : List Cell}
    (h : ∀ c ∈ row, c.kind.isStart = false) :
    ∀ c ∈ markOperators before row, c.kind.isStart = false := by
  induction row generalizing before with
  | nil => intro c hc; cases hc
  | cons c₀ cs ih =>
    have hmark : ∀ b : Option Bracket,
        (if b.isSome then { c₀ with kind := .operator b } else c₀).kind.isStart = false := by
      intro b
      cases b with
      | none => exact h c₀ (by simp)
      | some b => rfl
    intro c hc
    unfold markOperators at hc
    rcases List.mem_cons.mp hc with heq | hc
    · rw [heq]
      exact hmark _
    · exact ih (fun c hc => h c (by simp [hc])) c hc

theorem connectCell_isStart {all : List (Pos × Warp)} {p : Pos} {c : Cell}
    (h : c.kind.isStart = false) : (connectCell all p c).kind.isStart = false := by
  unfold connectCell
  split
  · split
    · exact h
    · split
      · rfl
      · exact h
  · exact h

theorem connect_noStart {rows : List (List Cell)} (h : NoStart rows) : NoStart (connect rows) := by
  intro row hrow
  unfold connect at hrow
  obtain ⟨⟨row₀, y⟩, hrow₀, rfl⟩ := List.mem_map.mp hrow
  have hcells := h row₀ (List.fst_mem_of_mem_zipIdx hrow₀)
  dsimp only
  split
  · exact hcells
  · intro c hc
    obtain ⟨⟨c₀, x⟩, hc₀, rfl⟩ := List.mem_map.mp hc
    exact connectCell_isStart (hcells c₀ (List.fst_mem_of_mem_zipIdx hc₀))

/-- Only points are marked as starting points. -/
theorem markStarts_glyph {seen : Bool} {row : List Cell} (h : ∀ c ∈ row, c.kind.isStart = false) :
    ∀ c ∈ markStarts seen row, c.kind.isStart = true → c.glyph = '.' := by
  induction row generalizing seen with
  | nil => intro c hc; cases hc
  | cons c₀ cs ih =>
    have htail : ∀ seen, ∀ c ∈ markStarts seen cs, c.kind.isStart = true → c.glyph = '.' :=
      fun _ => ih (fun c hc => h c (by simp [hc]))
    intro c hc hstart
    unfold markStarts at hc
    split at hc
    · split at hc
      · rw [h c hc] at hstart; cases hstart
      · rcases List.mem_cons.mp hc with rfl | hc
        · rw [h c (by simp)] at hstart; cases hstart
        · exact htail true c hc hstart
    · split at hc
      · next hdot =>
        rcases List.mem_cons.mp hc with rfl | hc
        · simpa using hdot
        · exact htail seen c hc hstart
      · rcases List.mem_cons.mp hc with rfl | hc
        · rw [h c (by simp)] at hstart; cases hstart
        · exact htail seen c hc hstart

theorem mem_rows_of_cell? {w : World} {p : Pos} {c : Cell} (h : w.cell? p = some c) :
    ∃ row ∈ w.rows, c ∈ row := by
  unfold cell? at h
  split at h
  · cases h
  · obtain ⟨row, hrow, hc⟩ := Option.bind_eq_some_iff.mp h
    exact ⟨row, List.mem_of_getElem? hrow, List.mem_of_getElem? hc⟩

/-- Every cell is among the cells with their positions. -/
theorem mem_located {w : World} {p : Pos} {c : Cell} (h : w.cell? p = some c) :
    (p, c) ∈ located w.rows := by
  unfold cell? at h
  split at h
  · cases h
  · next hpos =>
    simp only [Bool.or_eq_true, decide_eq_true_eq, not_or, Int.not_lt] at hpos
    obtain ⟨row, hrow, hc⟩ := Option.bind_eq_some_iff.mp h
    apply List.mem_flatMap.mpr
    refine ⟨(row, p.y.toNat), List.mem_zipIdx_iff_getElem?.mpr hrow, ?_⟩
    apply List.mem_map.mpr
    refine ⟨(c, p.x.toNat), List.mem_zipIdx_iff_getElem?.mpr hc, ?_⟩
    simp [Int.toNat_of_nonneg hpos.1, Int.toNat_of_nonneg hpos.2]

/-- In a built world the starting points have been marked last. -/
theorem build_marks {shelf : Shelf} {program : String} {w : World}
    (hw : build shelf program = .ok w) :
    ∃ rows, NoStart rows ∧ w.rows = rows.map (markStarts false) := by
  unfold build at hw
  split at hw
  · next blocks next hexpand =>
    cases hw
    have hblocks : NoStart blocks.flatten := expand_program_allCells noStart_keptByDrawing hexpand
    have hmarked : NoStart (blocks.flatten.map (markOperators none)) := by
      intro row hrow
      obtain ⟨row₀, hrow₀, rfl⟩ := List.mem_map.mp hrow
      exact markOperators_isStart (hblocks row₀ hrow₀)
    exact ⟨_, connect_noStart hmarked, rfl⟩
  · cases hw

/-- In a built world every starting point is a point. -/
theorem start_glyph {shelf : Shelf} {program : String} {w : World} {p : Pos} {c : Cell}
    (hw : build shelf program = .ok w) (hc : w.cell? p = some c) (hstart : c.kind.isStart = true) :
    c.glyph = '.' := by
  obtain ⟨rows, hrows, hmarked⟩ := build_marks hw
  obtain ⟨row, hrow, hmem⟩ := mem_rows_of_cell? hc
  rw [hmarked] at hrow
  obtain ⟨row₀, hrow₀, rfl⟩ := List.mem_map.mp hrow
  exact markStarts_glyph (hrows row₀ hrow₀) c hmem hstart

/-- At a starting point there is a cell that is one. -/
theorem cell?_of_mem_starts {w : World} {p : Pos} (h : p ∈ w.starts) :
    ∃ c, w.cell? p = some c ∧ c.kind.isStart = true := by
  unfold starts at h
  obtain ⟨⟨p', c⟩, hpc, rfl⟩ := List.mem_map.mp h
  obtain ⟨hpc, hstart⟩ := List.mem_filter.mp hpc
  exact ⟨c, (mem_locatedOpen.mp hpc).cell?, hstart⟩

/-- No starting point is listed twice. -/
theorem nodup_starts (w : World) : w.starts.Nodup := by
  unfold starts
  refine List.pairwise_map.mpr (((locatedOpen_pairwise w.rows).filter _).imp ?_)
  intro a b hbefore heq
  rw [heq] at hbefore
  unfold Pos.Before at hbefore
  omega

end World

namespace Machine

open Scene

/-! ## The first dots -/

/-- A dot as it is put at a starting point. -/
structure Born (w : World) (d : Dot) : Prop where
  start : d.pos ∈ w.starts
  state : (d.phase = .travel ∧ d.dir ∈ Pos.directions) ∨ d.phase = .dead
  stack : d.stack = []
  value : d.value = .int 0
  id : d.id = .int 0

theorem Born.not_waiting {w : World} {d : Dot} (h : Born w d) (m : Meeting) :
    d.phase ≠ .meet m := by
  intro hm
  rcases h.state with ⟨hp, -⟩ | hp
  · rw [hp] at hm; cases hm
  · rw [hp] at hm; cases hm

theorem findDirection?_mem {w : World} {p dir : Pos} (h : Dot.findDirection? w p = some dir) :
    dir ∈ Pos.directions :=
  List.mem_of_find?_eq_some h

theorem addDot_ok {w : World} {p : Pos} {s s' : Scene} (hp : p ∈ w.starts)
    (h : addDot w (newDot p) none s = .ok () s') :
    ∃ d, Born w d ∧ d.spawn = p ∧ s'.dots = s.dots ++ [d] := by
  unfold addDot at h
  simp only [newDot, Phase.renewed, bind_ok_iff, orFail_ok_iff] at h
  obtain ⟨phase, _, ⟨hphase, rfl⟩, h⟩ := h
  cases hphase
  cases hdir : Dot.findDirection? w p with
  | some dir =>
    simp only [hdir, Option.orElse_none] at h
    cases h
    exact ⟨_, ⟨hp, .inl ⟨rfl, findDirection?_mem hdir⟩, rfl, rfl, rfl⟩, rfl, rfl⟩
  | none =>
    simp only [hdir, Option.orElse_none, bind_ok_iff] at h
    obtain ⟨_, t, hreport, h⟩ := h
    cases h
    refine ⟨_, ⟨?_, .inr ?_, ?_, ?_, ?_⟩, rfl, congrArg (· ++ [_]) (onConsole_dots hreport)⟩
    · exact hp
    · rfl
    · rfl
    · rfl
    · rfl

/-- The starting points get their dots one after the other. -/
theorem addDots_ok {w : World} {ps : List Pos} {s s' : Scene} (hps : ∀ p ∈ ps, p ∈ w.starts)
    (h : (ps.forM fun p => addDot w (newDot p) none) s = .ok () s') :
    ∃ new, s'.dots = s.dots ++ new ∧ new.map Dot.spawn = ps ∧ ∀ d ∈ new, Born w d := by
  induction ps generalizing s with
  | nil =>
    cases h
    exact ⟨[], by simp, rfl, by simp⟩
  | cons p ps ih =>
    simp only [List.forM_eq_forM, List.forM_cons, bind_ok_iff] at h ih
    obtain ⟨_, t, hadd, h⟩ := h
    obtain ⟨hp, hps⟩ := List.forall_mem_cons.mp hps
    obtain ⟨d, hd, hspawn, hdots⟩ := addDot_ok hp hadd
    obtain ⟨new, hnew, hspawns, hborn⟩ := ih hps h
    refine ⟨d :: new, ?_, by simp [hspawn, hspawns], List.forall_mem_cons.mpr ⟨hd, hborn⟩⟩
    rw [hnew, hdots, List.append_assoc, List.singleton_append]

/-- There is one dot for each starting point. -/
theorem setUp_ok {w : World} {s s' : Scene} (h : setUp w s = .ok () s') :
    s'.dots.map Dot.spawn = w.starts ∧ ∀ d ∈ s'.dots, Born w d := by
  unfold setUp at h
  obtain ⟨_, t, ht, h⟩ := bind_ok_iff.mp h
  cases ht
  obtain ⟨new, hnew, hspawns, hborn⟩ := addDots_ok (fun p hp => hp) h
  rw [hnew]
  exact ⟨by simpa using hspawns, by simpa using hborn⟩

/-- A launch that succeeds has built the world and set up the dots. -/
theorem launch_setUp {shelf : Shelf} {program : String} {parallel : Bool} {console : Console}
    {traced : Nat} {m : Machine} (h : launch shelf program parallel console traced = (m, none)) :
    World.build shelf program = .ok m.world ∧ m.parallel = parallel ∧ m.shutdown = false ∧
      setUp m.world { dots := [], console := console, traceLeft := traced } = .ok () m.scene := by
  unfold launch at h
  cases hb : World.build shelf program with
  | error f => simp [hb] at h
  | ok w =>
    simp only [hb, perform] at h
    cases hs : setUp w { dots := [], console := console, traceLeft := traced } with
    | ok u s =>
      simp only [hs] at h
      cases h
      exact ⟨rfl, rfl, rfl, hs⟩
    | error e s =>
      simp only [hs] at h
      cases h

/-- Its dots are as they are put at the starting points. -/
theorem launch_ok {shelf : Shelf} {program : String} {parallel : Bool} {console : Console}
    {traced : Nat} {m : Machine} (h : launch shelf program parallel console traced = (m, none)) :
    World.build shelf program = .ok m.world ∧ ∀ d ∈ m.scene.dots, Born m.world d := by
  obtain ⟨hbuild, -, -, hsetUp⟩ := launch_setUp h
  exact ⟨hbuild, (setUp_ok hsetUp).2⟩

/-- No two of them were put at the same starting point. -/
theorem nodup_spawn_launch {shelf : Shelf} {program : String} {parallel : Bool}
    {console : Console} {traced : Nat} {m : Machine}
    (h : launch shelf program parallel console traced = (m, none)) :
    (m.scene.dots.map Dot.spawn).Nodup := by
  obtain ⟨-, -, -, hsetUp⟩ := launch_setUp h
  rw [(setUp_ok hsetUp).1]
  exact World.nodup_starts _

end Machine

end DotPaths
