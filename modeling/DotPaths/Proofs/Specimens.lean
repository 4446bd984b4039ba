import DotPaths.Proofs.Instances
import DotPaths.Proofs.RegionPlans

/-! # Specimens of libraries

    To see how a library works it is drawn in a world of its own, for one alias above
    it.  Wherever else the library is drawn, its rows are a replica of those, and the
    aliases for it lead to the same place in them.

    - `Specimen`: a library in a world of its own.
    - `LibraryAlias`: an alias for a library, in any world.
    - `Specimen.replica`: what has been seen at the specimen holds for the library of
      the alias.
-/

namespace DotPaths.World

/-! ## Programs with one library -/

/-- The expansion of a program that uses one library, which imports nothing. -/
theorem isExpansion_single {shelf : Shelf} {program text : List Char} {c : Char} {name : String}
    (haliases : aliasesUsed program = [c]) (hfile : fileFor? program c = some name)
    (htext : shelf.text? name = some text) (hnone : aliasesUsed text = []) :
    IsExpansion shelf program [⟨[], program⟩, ⟨[c], text⟩] := by
  have hbelow : Imports shelf ([] ++ [c]) text (aliasesUsed text) [] := by
    rw [hnone]
    exact .nil
  refine ⟨_, ?_, rfl⟩
  rw [haliases]
  exact .cons hfile htext hbelow .nil

/-- The warp `a` at `p` is an alias, and the library that is imported for it has this
    text. -/
structure LibraryAlias (w : World) (uses : List FileUse) (text : List Char) (p : Pos)
    (a : OpenWarp) : Prop where
  warp : WarpAt w.rows uses p a
  role : a.warp.role = .entrance
  imported : ⟨a.path ++ [a.glyph], text⟩ ∈ uses

/-- Is the character `c` at the position an alias that leads where it should? -/
def hasEntrance (w : World) (p : Pos) (c : Char) (leads : Option Pos → Bool) : Bool :=
  (locatedOpen w.rows).any fun (q, cell) => (q == p && cell.glyph == c) &&
    cell.kind.warp?.any fun v => v.role == .entrance && leads v.target

theorem libraryAlias_of_hasEntrance {w : World} {uses : List FileUse} {text path : List Char}
    {p : Pos} {c : Char} {leads : Option Pos → Bool} (h : hasEntrance w p c leads = true)
    (howner : (owners uses)[p.y.toNat]? = some path) (himported : ⟨path ++ [c], text⟩ ∈ uses) :
    ∃ v, LibraryAlias w uses text p ⟨path, c, v⟩ ∧ leads v.target = true := by
  obtain ⟨⟨q, cell⟩, hmem, hcell⟩ := List.any_eq_true.mp h
  simp only [Bool.and_eq_true, beq_iff_eq] at hcell
  obtain ⟨⟨rfl, rfl⟩, hwarp⟩ := hcell
  obtain ⟨v, hv, hleads⟩ := (Option.any_eq_true _ _).mp hwarp
  rw [Bool.and_eq_true, beq_iff_eq] at hleads
  have hopen : OpenAt w.rows q ⟨cell.glyph, .warp v⟩ := by
    have hopen := mem_locatedOpen.mp hmem
    obtain ⟨glyph, kind⟩ := cell
    cases kind with
    | warp v' =>
      cases hv
      exact hopen
    | _ => cases hv
  exact ⟨v, ⟨⟨hopen, howner⟩, hleads.1, himported⟩, hleads.2⟩

/-! ## Specimens -/

/-- A program that imports a library for the alias at `⟨0, 1⟩`. -/
def specimenProgram (name : String) : String := "%!" ++ name ++ " n\nn"

/-- The world of this program, without any files around it. -/
def specimenWorld (name : String) : World :=
  (build ⟨⟨[]⟩, []⟩ (specimenProgram name)).toOption.getD default

/-- The world shows the library `text` from row 2 on, for the alias at `⟨0, 1⟩`, which
    leads to `q`. -/
structure Specimen (w : World) (text : List Char) (q : Pos) : Prop where
  plain : IsPlain text
  shown : ∃ uses a, Instance w uses ⟨a.path ++ [a.glyph], text⟩ 2 ∧
    LibraryAlias w uses text ⟨0, 1⟩ a ∧ a.warp.target = some q

/-- What is to be seen in the world of the program, and in the text of the library. -/
def isSpecimen (name : String) (text : List Char) (q : Pos) : Bool :=
  (build ⟨⟨[]⟩, []⟩ (specimenProgram name)).toOption.isSome &&
    (aliasesUsed (specimenProgram name).toList == ['n'] &&
    fileFor? (specimenProgram name).toList 'n' == some name) &&
    (rowsOf (specimenProgram name).toList).length == 2 &&
    (Shelf.text? ⟨⟨[]⟩, []⟩ name == some text && aliasesUsed text == []) &&
    decide (IsPlain text) &&
    hasEntrance (specimenWorld name) ⟨0, 1⟩ 'n' (· == some q)

theorem specimen_of_isSpecimen {name : String} {text : List Char} {q : Pos}
    (h : isSpecimen name text q = true) : Specimen (specimenWorld name) text q := by
  unfold isSpecimen at h
  simp only [Bool.and_eq_true, beq_iff_eq, decide_eq_true_eq] at h
  obtain ⟨⟨⟨⟨⟨hbuilt, haliases, hfile⟩, hrows⟩, htext, hnone⟩, hplain⟩, hentrance⟩ := h
  have hbuild : build ⟨⟨[]⟩, []⟩ (specimenProgram name) = .ok (specimenWorld name) :=
    build_of_isSome hbuilt
  let uses : List FileUse := [⟨[], (specimenProgram name).toList⟩, ⟨['n'], text⟩]
  have huses : IsExpansion ⟨⟨[]⟩, []⟩ (specimenProgram name).toList uses :=
    isExpansion_single haliases hfile htext hnone
  have howners : owners [⟨[], (specimenProgram name).toList⟩] = [[], []] := by
    obtain ⟨first, second, hboth⟩ := List.length_eq_two.mp hrows
    simp [owners, hboth]
  obtain ⟨uses', register, rows, huses', hdraft⟩ := build_draft hbuild
  obtain rfl := huses.unique huses'
  -- Two rows of the program stand above the library.
  have hlies : LiesAt uses ⟨['n'], text⟩ 2 := by
    have hlies : LiesAt ([⟨[], (specimenProgram name).toList⟩] ++ ⟨['n'], text⟩ :: [])
        ⟨['n'], text⟩ (owners [⟨[], (specimenProgram name).toList⟩]).length :=
      liesAt_append huses.paths_ordered huses.paths_nodup
    rw [howners] at hlies
    exact hlies
  have hinstance : Instance (specimenWorld name) uses ⟨['n'], text⟩ 2 := by
    refine ⟨⟨register, rows, hdraft⟩, hlies, List.cons_ne_nil _ _, ?_⟩
    intro v hv hpath
    rcases List.mem_cons.mp hv with rfl | hv
    · cases hpath
    · exact List.mem_singleton.mp hv
  have howner : (owners uses)[1]? = some [] := by
    have hsplit : owners uses = [[], []] ++ owners [⟨['n'], text⟩] := by
      rw [← howners]
      simp [uses, owners]
    rw [hsplit]
    rfl
  obtain ⟨v, halias, htarget⟩ := libraryAlias_of_hasEntrance hentrance howner
    (show ⟨[] ++ ['n'], text⟩ ∈ uses by simp [uses])
  exact ⟨hplain, uses, ⟨[], 'n', v⟩, hinstance, halias, beq_iff_eq.mp htarget⟩

/-- The rows of the library for which the alias stands. -/
def OpenWarp.libraryRows (uses : List FileUse) (a : OpenWarp) : Region :=
  rowsAt uses (a.path ++ [a.glyph])

/-- The rows of the library are a replica of the specimen.  They lie from row `top` on,
    below the alias, and the alias leads to the position that corresponds to `q`. -/
theorem Specimen.replica {w₀ w : World} {text : List Char} {q p : Pos} {shelf : Shelf}
    {program : String} {uses : List FileUse} {a : OpenWarp} (h : Specimen w₀ text q)
    (hbuild : build shelf program = .ok w) (huses : IsExpansion shelf program.toList uses)
    (ha : LibraryAlias w uses text p a) :
    ∃ top, Replica w₀ (band 2 (rowsOf text).length) w (a.libraryRows uses) (offset 2 top) ∧
      a.libraryRows uses = band top (rowsOf text).length ∧
      a.warp.target = some (q + offset 2 top) ∧ p.y < top := by
  obtain ⟨uses₀, a₀, hinstance₀, ha₀, htarget₀⟩ := h.shown
  obtain ⟨top, hinstance⟩ := exists_instance hbuild huses ha.imported (by simp)
  have hreplica := hinstance₀.replica hinstance rfl h.plain
  rw [hinstance₀.lies.rows] at hreplica
  refine ⟨top, hreplica, hinstance.lies.rows, ?_, hinstance.entrance_above ha.warp rfl⟩
  rw [hinstance₀.entrance_target hinstance rfl h.plain ha₀.warp ha₀.role rfl ha.warp ha.role rfl,
    htarget₀]
  rfl

/-- The alias leads into the replica. -/
theorem LibraryAlias.leads {w₀ w : World} {R₀ : Region} {text : List Char} {uses : List FileUse}
    {p q : Pos} {a : OpenWarp} {top : Nat} {S : Embedding w₀ R₀ w (a.libraryRows uses)}
    (ha : LibraryAlias w uses text p a) (hrows : a.libraryRows uses = band top (rowsOf text).length)
    (htarget : a.warp.target = some (q + S.shift)) (habove : p.y < top) : S.Leads p q where
  outside := by
    rw [hrows]
    exact decide_eq_false fun hp => by omega
  warp := by
    refine ⟨_, a.warp, ha.warp.cell.cell?, rfl, htarget, ?_⟩
    rw [ha.role]
    rfl

end DotPaths.World
