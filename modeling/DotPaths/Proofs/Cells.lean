import DotPaths.Proofs.ImportLoop
import DotPaths.Proofs.Lists

/-! # What holds of all cells

    The cells of a drawing come from the rows of its texts.  Some of them become
    exposed when a library is opened; then letters and aliases are marked, and
    warps are numbered.  A property that none of this destroys holds of every cell,
    however deep the libraries are nested.

    - `mem_locatedOpen`, `locatedOpen_pairwise`: the cells of open rows are listed
      in the order of the rows.
    - `expand_allCells`: what holds of the cells of all texts and is kept by the
      drawing holds of all cells.
-/

namespace DotPaths

/-- Row by row, and in a row from left to right, `p` comes before `q`. -/
def Pos.Before (p q : Pos) : Prop := p.y < q.y ∨ (p.y = q.y ∧ p.x < q.x)

namespace World

/-! ## Cells of open rows by their positions -/

/-- The cell `c` stands at the position, in a row that is no directive. -/
structure OpenAt (rows : Block) (p : Pos) (c : Cell) : Prop where
  inside : 0 ≤ p.x ∧ 0 ≤ p.y
  found : ∃ row, rows[p.y.toNat]? = some row ∧ isDirective row = false ∧ row[p.x.toNat]? = some c

theorem OpenAt.cell? {w : World} {p : Pos} {c : Cell} (h : OpenAt w.rows p c) :
    w.cell? p = some c := by
  obtain ⟨hx, hy⟩ := h.inside
  obtain ⟨row, hrow, -, hc⟩ := h.found
  have hnot : ¬ (decide (p.x < 0) || decide (p.y < 0)) = true := by simp; omega
  unfold World.cell?
  rw [if_neg hnot, hrow]
  exact hc

theorem mem_locatedOpen {rows : Block} {p : Pos} {c : Cell} :
    (p, c) ∈ locatedOpen rows ↔ OpenAt rows p c := by
  unfold locatedOpen
  rw [List.mem_flatMap]
  constructor
  · rintro ⟨⟨row, y⟩, hrow, hmem⟩
    have hrow := List.mem_zipIdx_iff_getElem?.mp hrow
    simp only at hmem hrow
    split at hmem
    · cases hmem
    · next hopen =>
      obtain ⟨⟨c', x⟩, hcell, heq⟩ := List.mem_map.mp hmem
      have hcell := List.mem_zipIdx_iff_getElem?.mp hcell
      cases heq
      refine ⟨⟨by simp, by simp⟩, row, ?_, by simpa using hopen, ?_⟩
      · simpa using hrow
      · simpa using hcell
  · rintro ⟨⟨hx, hy⟩, row, hrow, hopen, hcell⟩
    refine ⟨(row, p.y.toNat), List.mem_zipIdx_iff_getElem?.mpr hrow, ?_⟩
    simp only [hopen, Bool.false_eq_true, if_false]
    refine List.mem_map.mpr ⟨(c, p.x.toNat), List.mem_zipIdx_iff_getElem?.mpr hcell, ?_⟩
    show ((⟨((p.x.toNat : Nat) : Int), ((p.y.toNat : Nat) : Int)⟩ : Pos), c) = (p, c)
    rw [Int.toNat_of_nonneg hx, Int.toNat_of_nonneg hy]

/-- The cells of open rows are listed in the order of the rows. -/
theorem locatedOpen_pairwise (rows : Block) :
    (locatedOpen rows).Pairwise fun a b => a.1.Before b.1 := by
  unfold locatedOpen
  rw [List.pairwise_flatMap]
  -- In a row the columns increase, and from row to row the rows do.
  refine ⟨?_, (pairwise_zipIdx rows 0).imp ?_⟩
  · rintro ⟨row, y⟩ -
    show (if isDirective row then [] else _ : List (Pos × Cell)).Pairwise _
    split
    · exact .nil
    · rw [List.pairwise_map]
      refine (pairwise_zipIdx row 0).imp ?_
      intro a b hab
      exact .inr ⟨rfl, Int.ofNat_lt.mpr hab⟩
  · intro a b hab x hx x' hx'
    have hplace : ∀ {r : List Cell × Nat} {x : Pos × Cell},
        x ∈ (if isDirective r.1 then [] else
          r.1.zipIdx.map fun q => ((⟨(q.2 : Int), (r.2 : Int)⟩ : Pos), q.1)) → x.1.y = r.2 := by
      intro r x hx
      split at hx
      · cases hx
      · obtain ⟨q, -, rfl⟩ := List.mem_map.mp hx
        rfl
    left
    rw [hplace hx, hplace hx']
    exact Int.ofNat_lt.mpr hab

/-! ## Reading -/

theorem orFail_ok_iff {α : Type} {x : Except DrawingFault α} {a : α} {n n' : Int} :
    orFail x n = .ok a n' ↔ x = .ok a ∧ n' = n := by
  cases x with
  | ok b =>
    show (pure b : Builder α) n = .ok a n' ↔ _
    rw [pure_ok_iff]
    simp [eq_comm]
  | error f =>
    simp only [reduceCtorEq, false_and, iff_false]
    exact throw_ne_ok

theorem map_cons_ok {x : Except DrawingFault Block} {first : List Cell} {cells : Block}
    (h : x.map (first :: ·) = .ok cells) : ∃ rest, x = .ok rest ∧ cells = first :: rest := by
  cases x with
  | error f => cases h
  | ok rest =>
    cases h
    exact ⟨rest, rfl, rfl⟩

/-- Each row of a library is a row of its text, in which the cells with one
    character may be exposed. -/
theorem exposedRows_ok {role : WarpRole} {link : Option Int} {shown : Option Char}
    {rows : List (List Char)} {cells : Block} (h : exposedRows role link shown rows = .ok cells) :
    List.Forall₂ (fun row cells => ∃ shown, cells = exposedRow role link shown row) rows cells := by
  have hplain : ∀ row, plainRow row = exposedRow role link none row := by
    intro row
    simp [plainRow, exposedRow]
  induction rows generalizing shown cells with
  | nil =>
    cases h
    exact .nil
  | cons row rows ih =>
    unfold exposedRows at h
    split at h
    · split at h <;> cases h
    · split at h
      · obtain ⟨rest, hrest, rfl⟩ := map_cons_ok h
        exact .cons ⟨none, hplain row⟩ (ih hrest)
      · cases h
    · obtain ⟨rest, hrest, rfl⟩ := map_cons_ok h
      exact .cons ⟨none, hplain row⟩ (ih hrest)
    · obtain ⟨rest, hrest, rfl⟩ := map_cons_ok h
      exact .cons ⟨shown, rfl⟩ (ih hrest)

/-! ## Properties of cells -/

/-- All cells of the rows have a property. -/
def AllCells (P : Cell → Prop) (rows : Block) : Prop := ∀ row ∈ rows, ∀ c ∈ row, P c

/-- The cells of a text have the property when it is read, and drawing the text
    keeps it. -/
structure KeptByDrawing (P : Cell → Prop) : Prop where
  plain : ∀ g, P ⟨g, .plain⟩
  exposed : ∀ g link, P ⟨g, .warp ⟨.exposed, link, none⟩⟩
  letter : ∀ g, P ⟨g, .warp ⟨.letter, none, none⟩⟩
  entrance : ∀ g, P ⟨g, .warp ⟨.entrance, none, none⟩⟩
  number : ∀ linkFor c, P c → P (World.number linkFor c)

theorem AllCells.map {P : Cell → Prop} {rows : Block} (h : AllCells P rows) {f : Cell → Cell}
    (hf : ∀ c, P c → P (f c)) : AllCells P (rows.map (·.map f)) := by
  intro row' hrow' c' hc'
  obtain ⟨row, hrow, rfl⟩ := List.mem_map.mp hrow'
  obtain ⟨c, hc, rfl⟩ := List.mem_map.mp hc'
  exact hf c (h row hrow c hc)

/-- A change of the rows that are no directives. -/
theorem AllCells.mapOpen {P : Cell → Prop} {rows : Block} (h : AllCells P rows) {f : Cell → Cell}
    (hf : ∀ c, P c → P (f c)) :
    AllCells P (rows.map fun row => if isDirective row then row else row.map f) := by
  intro row' hrow' c' hc'
  obtain ⟨row, hrow, rfl⟩ := List.mem_map.mp hrow'
  split at hc'
  · exact h row hrow c' hc'
  · obtain ⟨c, hc, rfl⟩ := List.mem_map.mp hc'
    exact hf c (h row hrow c hc)

theorem expandByAliasWith_allCells {P : Cell → Prop} {load : Int → String → Builder (List Block)}
    {rows : Block} {blocks : List Block} {n n' : Int} (hP : KeptByDrawing P)
    (hload : ∀ link name t blocks t', load link name t = .ok blocks t' →
      ∀ block ∈ blocks, AllCells P block)
    (hrows : AllCells P rows) (h : expandByAliasWith load rows n = .ok blocks n') :
    ∀ block ∈ blocks, AllCells P block := by
  unfold expandByAliasWith at h
  simp only [bind_ok_iff, pure_ok_iff] at h
  obtain ⟨rows₁, _, hnumbered, names, _, -, imports, _, himports, rfl, rfl⟩ := h
  -- In the order in which a text is drawn: letters, their numbers, aliases.
  have hletters : AllCells P (markLetters (warpLetters (rows.map glyphs)) rows) := by
    refine hrows.map fun c hc => ?_
    split
    · exact hP.letter c.glyph
    · exact hc
  have hrows₁ : AllCells P rows₁ := by
    unfold numberLetters at hnumbered
    simp only [bind_ok_iff, pure_ok_iff] at hnumbered
    obtain ⟨first, _, -, rfl, -⟩ := hnumbered
    exact hletters.map fun c hc => hP.number _ c hc
  have haliases : AllCells P (markAliases names rows₁) := by
    refine hrows₁.mapOpen fun c hc => ?_
    split
    · exact hP.entrance c.glyph
    · exact hc
  intro block hblock
  rcases List.mem_cons.mp hblock with rfl | hblock
  · exact haliases.mapOpen fun c hc => hP.number _ c hc
  · exact importAll_forall hload himports block hblock

/-- What drawing keeps holds of all cells, however deep the libraries are nested. -/
theorem expand_allCells {P : Cell → Prop} {shelf : Shelf} {fuel : Nat} {rows : Block}
    {blocks : List Block} {n n' : Int} (hP : KeptByDrawing P) (hrows : AllCells P rows)
    (h : expand shelf fuel rows n = .ok blocks n') : ∀ block ∈ blocks, AllCells P block := by
  rw [expand_eq_expandByAlias] at h
  induction fuel generalizing rows blocks n n' with
  | zero =>
    unfold expandByAlias at h
    refine expandByAliasWith_allCells hP ?_ hrows h
    intro link name t blocks t' hload
    split at hload <;> cases hload
  | succ fuel ih =>
    unfold expandByAlias at h
    refine expandByAliasWith_allCells hP ?_ hrows h
    intro link name t blocks t' hload
    obtain ⟨rows', r, hopen, hexpand⟩ := bind_ok_iff.mp hload
    -- A library has plain and exposed cells when it has just been read.
    refine ih ?_ hexpand
    unfold openLibrary at hopen
    cases htext : shelf.text? name with
    | none =>
      rw [htext] at hopen
      cases hopen
    | some inner =>
      rw [htext] at hopen
      intro row hrow c hc
      have hread := exposedRows_ok (orFail_ok_iff.mp hopen).1
      obtain ⟨line, -, shown, rfl⟩ := forall₂_mem_right hread row hrow
      obtain ⟨g, -, rfl⟩ := List.mem_map.mp hc
      by_cases hshown : (some g == shown) = true
      · rw [if_pos hshown]
        exact hP.exposed g _
      · rw [if_neg hshown]
        exact hP.plain g

theorem KeptByDrawing.program {P : Cell → Prop} (hP : KeptByDrawing P) (program : List Char) :
    AllCells P ((rowsOf program).map plainRow) := by
  intro row hrow c hc
  obtain ⟨line, -, rfl⟩ := List.mem_map.mp hrow
  obtain ⟨g, -, rfl⟩ := List.mem_map.mp hc
  exact hP.plain g

/-- What drawing keeps holds of all that comes of a program. -/
theorem expand_program_allCells {P : Cell → Prop} {shelf : Shelf} {fuel : Nat}
    {program : List Char} {blocks : List Block} {n n' : Int} (hP : KeptByDrawing P)
    (h : expand shelf fuel ((rowsOf program).map plainRow) n = .ok blocks n') :
    AllCells P blocks.flatten := by
  intro row hrow
  obtain ⟨block, hblock, hrow⟩ := List.mem_flatten.mp hrow
  exact expand_allCells hP (hP.program program) h block hblock row hrow

/-! ## Worlds that are built -/

/-- A world that can be built is built. -/
theorem build_of_isSome {shelf : Shelf} {program : String}
    (h : (build shelf program).toOption.isSome = true) :
    build shelf program = .ok ((build shelf program).toOption.getD default) := by
  cases hbuilt : build shelf program with
  | error f =>
    rw [hbuilt] at h
    cases h
  | ok w => rfl

/-- What is found of a world that is built. -/
theorem exists_build_of_map {α : Type} {shelf : Shelf} {program : String} {f : World → α} {x : α}
    (h : (build shelf program).toOption.map f = some x) :
    ∃ w, build shelf program = .ok w ∧ f w = x := by
  obtain ⟨w, hw, hx⟩ := Option.map_eq_some_iff.mp h
  cases hbuilt : build shelf program with
  | error f =>
    rw [hbuilt] at hw
    cases hw
  | ok w' =>
    rw [hbuilt] at hw
    cases hw
    exact ⟨w, rfl, hx⟩

end World

end DotPaths
