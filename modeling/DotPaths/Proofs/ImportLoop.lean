import DotPaths.Proofs.Links
import DotPaths.Proofs.Scene

/-! # The import loop

    Libraries are appended to a file while its rows are gone through, so the loop
    comes to the rows of the libraries as well, and it would import once more for
    every library warp there that has no number.  There is none: before a library
    is appended, its letters have been numbered and its own aliases have been gone
    through.  So the loop ends with the rows that were appended in the first round.

    What comes of it is then what comes of taking the aliases of the file one by
    one, each of them once and in the order in which they occur, and numbering the
    rows of the file afterwards.
-/

namespace DotPaths.World

/-! ## Alias by alias -/

/-- Is it a warp of a library that is to get a number? -/
def wantsLibrary (c : Cell) : Bool := c.kind.isLibraryWarp && isUnnumbered c

/-- The aliases that a file uses, in the order in which they occur. -/
def usedAliases (rows : Block) : List Char :=
  (((openCells rows).filter wantsLibrary).map Cell.glyph).eraseDups

/-- Reading the library of an alias, with the next number. -/
def importAlias (load : Int → String → Builder (List Block)) (names : List (List Char × String))
    (c : Char) : Builder (Char × Int × List Block) := do
  let link ← takeLinks 1
  let blocks ← load link ((libraryFor? names c).getD "")
  pure (c, link, blocks)

/-- Reading the libraries of some aliases, one after the other. -/
def importAll (load : Int → String → Builder (List Block)) (names : List (List Char × String))
    (cs : List Char) : Builder (List (Char × Int × List Block)) :=
  cs.mapM (importAlias load names)

/-- The open rows with the numbers that imports have given to aliases. -/
def numberAliases (imports : List (Char × Int × List Block)) (rows : Block) : Block :=
  rows.map fun row =>
    if isDirective row then row
    else row.map (number fun c => (imports.find? (·.1 == c)).map (·.2.1))

/-- Expand a file alias by alias. -/
def expandByAliasWith (load : Int → String → Builder (List Block)) (rows : Block) :
    Builder (List Block) := do
  let texts := rows.map glyphs
  let rows ← numberLetters (markLetters (warpLetters texts) rows)
  let names ← orFail (aliases texts)
  let rows := markAliases names rows
  let imports ← importAll load names (usedAliases rows)
  pure (numberAliases imports rows :: (imports.map (·.2.2)).flatten)

/-- Expand a file and its libraries alias by alias, to a given depth. -/
def expandByAlias (shelf : Shelf) : Nat → Block → Builder (List Block)
  | 0 => expandByAliasWith fun _ name =>
    if (shelf.text? name).isSome then throw .endlessImport else throw (.missingLibrary name)
  | depth + 1 => expandByAliasWith fun link name => do
    let rows ← openLibrary shelf .exposed (some link) name
    expandByAlias shelf depth rows

section
variable {names : List (List Char × String)} {load : Int → String → Builder (List Block)}
  {s : Importing} {cs ds : List Cell} {rows : Block}

/-- What holds of all blocks that are read holds of all that are imported. -/
theorem importAll_forall {P : Block → Prop} {cs : List Char} {n n' : Int}
    {imports : List (Char × Int × List Block)}
    (hload : ∀ link name t blocks t', load link name t = .ok blocks t' → ∀ block ∈ blocks, P block)
    (h : importAll load names cs n = .ok imports n') :
    ∀ block ∈ (imports.map (·.2.2)).flatten, P block := by
  induction cs generalizing n imports n' with
  | nil =>
    unfold importAll at h
    rw [List.mapM_nil, pure_ok_iff] at h
    obtain ⟨rfl, rfl⟩ := h
    intro block hblock
    cases hblock
  | cons c cs ih =>
    unfold importAll importAlias at h
    simp only [List.mapM_cons, bind_ok_iff, pure_ok_iff] at h
    obtain ⟨_, t₂, ⟨link, t₁, -, blocks, _, hblocks, rfl, rfl⟩, others, _, hothers, rfl, rfl⟩ := h
    intro block hblock
    rcases List.mem_append.mp hblock with hblock | hblock
    · exact hload _ _ _ _ _ hblocks block hblock
    · exact ih hothers block hblock

/-- The imports are for the aliases, in their order. -/
theorem importAll_aliases {cs : List Char} {n n' : Int} {imports : List (Char × Int × List Block)}
    (h : importAll load names cs n = .ok imports n') : imports.map (·.1) = cs := by
  induction cs generalizing n imports n' with
  | nil =>
    unfold importAll at h
    rw [List.mapM_nil, pure_ok_iff] at h
    obtain ⟨rfl, rfl⟩ := h
    rfl
  | cons c cs ih =>
    unfold importAll importAlias at h
    simp only [List.mapM_cons, bind_ok_iff, pure_ok_iff] at h
    obtain ⟨_, _, ⟨_, _, -, _, _, -, rfl, rfl⟩, others, _, hothers, rfl, rfl⟩ := h
    exact congrArg (c :: ·) (ih hothers)

/-- What follows an import may know for which aliases it was. -/
theorem importAll_bind_congr {α : Type} {cs : List Char}
    {f g : List (Char × Int × List Block) → Builder α}
    (h : ∀ imports n n', importAll load names cs n = .ok imports n' → f imports = g imports) :
    (importAll load names cs >>= f) = (importAll load names cs >>= g) := by
  funext n
  cases hn : importAll load names cs n with
  | ok imports n' => rw [bind_of_ok hn, bind_of_ok hn, h imports n n' hn]
  | error e n' => rw [bind_of_error hn, bind_of_error hn]

/-! ## One round -/

/-- The aliases that have been met. -/
def Importing.met (s : Importing) : List Char := s.numbers.map (·.1)

/-- The state after some imports. -/
def Importing.add (s : Importing) (imports : List (Char × Int × List Block)) : Importing :=
  ⟨s.numbers ++ imports.map fun i => (i.1, i.2.1), s.appended ++ (imports.map (·.2.2)).flatten⟩

/-- The cells with the numbers that aliases have been given. -/
def Importing.numbering (s : Importing) (c : Cell) : Cell :=
  number (fun g => s.numbers.lookup g) c

/-- The aliases among some cells that are new, when others have been met. -/
def newAliases : List Char → List Cell → List Char
  | _, [] => []
  | met, c :: cs =>
    if wantsLibrary c && !met.contains c.glyph then c.glyph :: newAliases (met ++ [c.glyph]) cs
    else newAliases met cs

/-- Where a number is missing, there is an entrance with an alias of the file. -/
def OnlyEntrances (names : List (List Char × String)) (cs : List Cell) : Prop :=
  ∀ c ∈ cs, isUnnumbered c = true →
    c.kind = .warp ⟨.entrance, none, none⟩ ∧ (libraryFor? names c.glyph).isSome = true

theorem wantsLibrary_iff (h : OnlyEntrances names cs) {c : Cell} (hc : c ∈ cs) :
    wantsLibrary c = true ↔ isUnnumbered c = true := by
  unfold wantsLibrary
  rw [Bool.and_eq_true, and_iff_right_iff_imp]
  intro hun
  rw [(h c hc hun).1]
  rfl

/-- A cell that has a number is passed over. -/
theorem importCell_of_numbered {c : Cell} (h : isUnnumbered c = false) :
    importCell names load c = pure c := by
  unfold importCell
  rw [h, Bool.and_false]
  rfl

/-- An entrance whose alias has been met takes its number. -/
theorem importCell_of_met {c : Cell} {link : Int} (hwants : wantsLibrary c = true)
    (hmet : s.numbers.lookup c.glyph = some link) :
    (importCell names load c).run s = pure (number (fun _ => some link) c, s) := by
  unfold importCell
  unfold wantsLibrary at hwants
  simp [hwants, hmet]

/-- An entrance whose alias is new has its library read. -/
theorem importCell_of_new {c : Cell} (hkind : c.kind = .warp ⟨.entrance, none, none⟩)
    (halias : (libraryFor? names c.glyph).isSome = true)
    (hnew : s.numbers.lookup c.glyph = none) :
    (importCell names load c).run s = importAlias load names c.glyph >>= fun i =>
      pure (number (fun _ => some i.2.1) c, s.add [i]) := by
  obtain ⟨name, hname⟩ := Option.isSome_iff_exists.mp halias
  have hwants : (c.kind.isLibraryWarp && isUnnumbered c) = true := by
    unfold isUnnumbered
    rw [hkind]
    rfl
  have hremembered : c.kind.isRememberedWarp = true := by
    rw [hkind]
    rfl
  unfold importCell importAlias Importing.add
  simp [hwants, hremembered, hname, hnew]

theorem Importing.add_nil (s : Importing) : s.add [] = s := by
  simp [Importing.add]

theorem Importing.add_add (s : Importing) (imports imports' : List (Char × Int × List Block)) :
    (s.add imports).add imports' = s.add (imports ++ imports') := by
  simp [Importing.add]

theorem Importing.met_add (s : Importing) (imports : List (Char × Int × List Block)) :
    (s.add imports).met = s.met ++ imports.map (·.1) := by
  simp [Importing.met, Importing.add]

theorem importAll_nil : importAll load names [] = pure [] := List.mapM_nil

theorem importAll_cons (c : Char) (cs : List Char) :
    importAll load names (c :: cs) = importAlias load names c >>= fun i =>
      importAll load names cs >>= fun imports => pure (i :: imports) := List.mapM_cons

theorem importAll_append (cs ds : List Char) :
    importAll load names (cs ++ ds) = importAll load names cs >>= fun imports =>
      importAll load names ds >>= fun imports' => pure (imports ++ imports') := List.mapM_append

theorem number_congr {linkFor linkFor' : Char → Option Int} {c : Cell}
    (h : linkFor c.glyph = linkFor' c.glyph) : number linkFor c = number linkFor' c := by
  unfold number
  rw [h]

/-- A number that an alias has been given stays. -/
theorem Importing.numbering_add {c : Cell} {link : Int}
    (h : s.numbers.lookup c.glyph = some link) (imports : List (Char × Int × List Block)) :
    (s.add imports).numbering c = number (fun _ => some link) c := by
  apply number_congr
  show (s.numbers ++ _).lookup c.glyph = some link
  rw [List.lookup_append, h, Option.some_or]

theorem Importing.lookup_none_iff {c : Char} : s.numbers.lookup c = none ↔ c ∉ s.met := by
  rw [List.lookup_eq_none_iff]
  unfold Importing.met
  simp only [List.mem_map, not_exists, not_and, bne_iff_ne]
  exact ⟨fun h p hp heq => h p hp heq.symm, fun h p hp heq => h p hp heq.symm⟩

/-- Going through some cells reads the libraries of the aliases that are new among
    them, each of them once, and gives the cells their numbers. -/
theorem importCells_run (h : OnlyEntrances names cs) :
    (cs.mapM (importCell names load)).run s =
      importAll load names (newAliases s.met cs) >>= fun imports =>
        pure (cs.map (s.add imports).numbering, s.add imports) := by
  induction cs generalizing s with
  | nil =>
    rw [newAliases, importAll_nil, pure_bind, Importing.add_nil]
    rfl
  | cons c cs ih =>
    have hcs : OnlyEntrances names cs := fun d hd => h d (List.mem_cons_of_mem c hd)
    rw [List.mapM_cons, StateT.run_bind]
    cases hun : isUnnumbered c with
    | false =>
      have hnew : newAliases s.met (c :: cs) = newAliases s.met cs := by
        rw [newAliases, wantsLibrary, hun, Bool.and_false]
        rfl
      have hsame : ∀ imports, (s.add imports).numbering c = c := fun _ => number_eq_self _ hun
      rw [importCell_of_numbered hun, hnew]
      simp only [StateT.run_pure, StateT.run_bind, pure_bind, bind_assoc, ih hcs, List.map_cons,
        hsame]
    | true =>
      obtain ⟨hkind, halias⟩ := h c List.mem_cons_self hun
      have hwants : wantsLibrary c = true := (wantsLibrary_iff h List.mem_cons_self).mpr hun
      cases hlookup : s.numbers.lookup c.glyph with
      | some link =>
        have hmet : c.glyph ∈ s.met := by
          refine Decidable.byContradiction fun hnot => ?_
          rw [Importing.lookup_none_iff.mpr hnot] at hlookup
          cases hlookup
        have hnew : newAliases s.met (c :: cs) = newAliases s.met cs := by
          rw [newAliases, hwants]
          simp [hmet]
        rw [importCell_of_met hwants hlookup, hnew]
        simp only [StateT.run_pure, StateT.run_bind, pure_bind, bind_assoc, ih hcs, List.map_cons,
          Importing.numbering_add hlookup]
      | none =>
        have hnew : newAliases s.met (c :: cs) =
            c.glyph :: newAliases (s.met ++ [c.glyph]) cs := by
          rw [newAliases, hwants]
          simp [Importing.lookup_none_iff.mp hlookup]
        have hnumber : ∀ link blocks imports,
            (s.add ((c.glyph, link, blocks) :: imports)).numbering c =
              number (fun _ => some link) c := by
          intro link blocks imports
          apply number_congr
          show (s.numbers ++ (c.glyph, link) :: _).lookup c.glyph = some link
          rw [List.lookup_append, hlookup, Option.none_or, List.lookup_cons_self]
        rw [importCell_of_new hkind halias hlookup, hnew, importAll_cons]
        unfold importAlias
        simp only [StateT.run_pure, StateT.run_bind, pure_bind, bind_assoc, ih hcs, List.map_cons,
          Importing.met_add, List.map_nil, Importing.add_add, List.cons_append, List.nil_append,
          hnumber]

/-! ## The rows of a file -/

theorem newAliases_append (met : List Char) :
    newAliases met (cs ++ ds) = newAliases met cs ++ newAliases (met ++ newAliases met cs) ds := by
  induction cs generalizing met with
  | nil => simp [newAliases]
  | cons c cs ih =>
    rw [List.cons_append, newAliases, newAliases]
    split
    · rw [ih, List.cons_append, List.append_assoc, List.singleton_append]
    · exact ih met

/-- An alias that is to get a number is new or has been met. -/
theorem mem_newAliases {c : Cell} (met : List Char) (hc : c ∈ cs) (hwants : wantsLibrary c = true) :
    c.glyph ∈ met ++ newAliases met cs := by
  induction cs generalizing met with
  | nil => cases hc
  | cons d cs ih =>
    rw [newAliases]
    rcases List.mem_cons.mp hc with rfl | hc
    · rw [hwants, Bool.true_and]
      by_cases hmet : c.glyph ∈ met
      · exact List.mem_append_left _ hmet
      · simp [hmet]
    · split
      · have hmem := ih (met ++ [d.glyph]) hc
        rwa [List.append_assoc, List.singleton_append] at hmem
      · exact ih met hc

/-- The new aliases are those that occur, each of them once. -/
theorem newAliases_eq (met : List Char) :
    newAliases met cs =
      (((cs.filter wantsLibrary).map Cell.glyph).filter fun c => !met.contains c).eraseDups := by
  induction cs generalizing met with
  | nil => rfl
  | cons c cs ih =>
    rw [newAliases, List.filter_cons]
    cases hwants : wantsLibrary c with
    | false => exact ih met
    | true =>
      rw [if_pos rfl, List.map_cons, List.filter_cons, Bool.true_and]
      cases hmet : met.contains c.glyph with
      | true => exact ih met
      | false =>
        rw [Bool.not_false, if_pos rfl, if_pos rfl, List.eraseDups_cons, List.filter_filter, ih]
        congr 3
        funext d
        simp only [List.contains_append, List.contains_cons, List.contains_nil, Bool.or_false,
          Bool.not_or, Bool.and_comm]

theorem newAliases_openCells : newAliases [] (openCells rows) = usedAliases rows := by
  rw [newAliases_eq, List.filter_eq_self.mpr (by simp)]
  rfl

/-- The rows with the numbers that aliases have been given. -/
def Importing.numberOpen (s : Importing) (rows : Block) : Block :=
  rows.map fun row => if isDirective row then row else row.map s.numbering

/-- Numbers that are given later do not concern the cells that have been gone
    through. -/
theorem numbering_later {imports : List (Char × Int × List Block)} (h : OnlyEntrances names cs)
    (himports : imports.map (·.1) = newAliases s.met cs)
    (later : List (Char × Int × List Block)) :
    cs.map (s.add (imports ++ later)).numbering = cs.map (s.add imports).numbering := by
  apply List.map_congr_left
  intro c hc
  cases hun : isUnnumbered c with
  | false => exact (number_eq_self _ hun).trans (number_eq_self _ hun).symm
  | true =>
    have hmet : c.glyph ∈ (s.add imports).met := by
      rw [Importing.met_add, himports]
      exact mem_newAliases _ hc ((wantsLibrary_iff h hc).mpr hun)
    cases hlookup : (s.add imports).numbers.lookup c.glyph with
    | none => exact absurd hmet (Importing.lookup_none_iff.mp hlookup)
    | some link =>
      rw [← Importing.add_add, Importing.numbering_add hlookup]
      exact (number_congr hlookup).symm

/-- Going through the rows of a file reads the libraries of its aliases. -/
theorem importRows_run (h : OnlyEntrances names (openCells rows)) :
    (importRows names load rows).run s =
      importAll load names (newAliases s.met (openCells rows)) >>= fun imports =>
        pure ((s.add imports).numberOpen rows, s.add imports) := by
  unfold importRows
  induction rows generalizing s with
  | nil =>
    rw [List.mapM_nil]
    show _ = importAll load names (newAliases s.met []) >>= _
    rw [newAliases, importAll_nil, pure_bind, Importing.add_nil]
    rfl
  | cons row rows ih =>
    rw [List.mapM_cons, StateT.run_bind]
    rw [openCells_cons] at h ⊢
    cases hrow : isDirective row with
    | true =>
      rw [hrow, if_pos rfl] at h
      rw [if_pos rfl, if_pos rfl]
      simp only [StateT.run_pure, StateT.run_bind, pure_bind, bind_assoc, ih h,
        Importing.numberOpen, List.map_cons, hrow, if_true]
    | false =>
      rw [hrow, if_neg Bool.false_ne_true] at h
      rw [if_neg Bool.false_ne_true, if_neg Bool.false_ne_true]
      have hfirst : OnlyEntrances names row := fun c hc => h c (List.mem_append_left _ hc)
      have hrest : OnlyEntrances names (openCells rows) :=
        fun c hc => h c (List.mem_append_right _ hc)
      rw [newAliases_append, importAll_append, importCells_run hfirst]
      simp only [bind_assoc, pure_bind]
      refine importAll_bind_congr fun imports _ _ himports => ?_
      have haliases := importAll_aliases himports
      simp only [StateT.run_bind, StateT.run_pure, ih hrest, bind_assoc, pure_bind,
        Importing.met_add, haliases, Importing.add_add, Importing.numberOpen, List.map_cons, hrow,
        Bool.false_eq_true, if_false, numbering_later hfirst haliases]

/-! ## The loop -/

/-- No warp of an open row is without a number. -/
def AllNumbered (rows : Block) : Prop := ∀ c ∈ openCells rows, isUnnumbered c = false

/-- A traversal that leaves every member as it is. -/
theorem mapM_eq_pure {m : Type → Type} {α : Type} [Monad m] [LawfulMonad m] {f : α → m α}
    {l : List α} (h : ∀ x ∈ l, f x = pure x) : l.mapM f = pure l := by
  induction l with
  | nil => exact List.mapM_nil
  | cons x l ih =>
    rw [List.mapM_cons, h x List.mem_cons_self, pure_bind,
      ih fun y hy => h y (List.mem_cons_of_mem x hy), pure_bind]

/-- Rows without a missing number are passed over. -/
theorem importRows_of_numbered (h : AllNumbered rows) :
    importRows names load rows = pure rows := by
  refine mapM_eq_pure fun row hrow => ?_
  cases hdirective : isDirective row with
  | true => rfl
  | false =>
    refine mapM_eq_pure fun c hc => importCell_of_numbered (h c ?_)
    exact mem_openCells.mpr ⟨row, hrow, hdirective, hc⟩

/-- Blocks without a missing number are the end of the loop. -/
theorem importBlocks_of_numbered {blocks : List Block} (h : ∀ block ∈ blocks, AllNumbered block)
    (hnone : s.appended = []) (rounds : Nat) :
    (importBlocks names load (rounds + 1) blocks).run s = pure (blocks, s) := by
  unfold importBlocks
  rw [mapM_eq_pure fun block hblock => importRows_of_numbered (h block hblock), pure_bind]
  simp [hnone]

theorem lookup_imports (imports : List (Char × Int × List Block)) (c : Char) :
    (imports.map fun i => (i.1, i.2.1)).lookup c = (imports.find? (·.1 == c)).map (·.2.1) := by
  induction imports with
  | nil => rfl
  | cons i imports ih =>
    rw [List.map_cons, List.lookup_cons, List.find?_cons, Bool.beq_comm]
    cases i.1 == c with
    | true => rfl
    | false => exact ih

/-- The rows of a file at the end of the first round. -/
theorem numberOpen_add (imports : List (Char × Int × List Block)) (rows : Block) :
    (({} : Importing).add imports).numberOpen rows = numberAliases imports rows := by
  have hnumbering : (({} : Importing).add imports).numbering =
      number fun c => (imports.find? (·.1 == c)).map (·.2.1) :=
    funext fun c => number_congr (lookup_imports imports c.glyph)
  unfold Importing.numberOpen numberAliases
  rw [hnumbering]

/-- The loop appends the libraries of the aliases of a file and nothing else, if all
    that is read has its numbers.  One round is for the file, and one more for what
    has been appended, if anything can be read. -/
theorem importBlocks_run (h : OnlyEntrances names (openCells rows))
    (hload : ∀ link name n blocks n', load link name n = .ok blocks n' →
      ∀ block ∈ blocks, AllNumbered block)
    {rounds : Nat} (hrounds : rounds = 0 → ∀ link name n blocks n',
      load link name n ≠ .ok blocks n') :
    (importBlocks names load (rounds + 1) [rows]).run' {} =
      importAll load names (usedAliases rows) >>= fun imports =>
        pure (numberAliases imports rows :: (imports.map (·.2.2)).flatten) := by
  rw [StateT.run'_eq, importBlocks, List.mapM_cons, List.mapM_nil, StateT.run_bind,
    StateT.run_bind, importRows_run h, ← newAliases_openCells]
  simp only [bind_assoc, pure_bind, map_bind, StateT.run_pure, StateT.run_bind, StateT.run_get, numberOpen_add]
  refine importAll_bind_congr fun imports n n' himports => ?_
  have hblocks := importAll_forall hload himports
  have happended : (({} : Importing).add imports).appended = (imports.map (·.2.2)).flatten := rfl
  rw [happended]
  cases hempty : (imports.map (·.2.2)).flatten with
  | nil => simp
  | cons block blocks =>
    cases rounds with
    | zero =>
      have hnone := importAll_forall (P := fun _ => False)
        (fun link name t blocks t' hload => absurd hload (hrounds rfl link name t blocks t')) himports
      exact (hnone block (hempty ▸ List.mem_cons_self)).elim
    | succ rounds =>
      rw [hempty] at hblocks
      simp [importBlocks_of_numbered hblocks]

/-! ## Expanding -/

theorem allNumbered_letters {n n' : Int} {rows' : Block} (h : numberLetters rows n = .ok rows' n') :
    AllNumbered rows' := by
  unfold numberLetters at h
  simp only [bind_ok_iff, pure_ok_iff] at h
  obtain ⟨first, _, -, rfl, -⟩ := h
  intro c hc
  rw [openCells_map (number_glyph _)] at hc
  obtain ⟨c₀, -, rfl⟩ := List.mem_map.mp hc
  exact number_numbered rfl

/-- Once the letters have their numbers, the aliases alone lack one. -/
theorem onlyEntrances_markAliases (h : AllNumbered rows) :
    OnlyEntrances names (openCells (markAliases names rows)) := by
  intro c hc hun
  rw [markAliases_cells] at hc
  obtain ⟨c₀, hc₀, rfl⟩ := List.mem_map.mp hc
  rw [markAlias_glyph]
  unfold markAlias at hun ⊢
  split at hun
  · next halias => exact ⟨if_pos halias ▸ rfl, halias⟩
  · rw [h c₀ hc₀] at hun
    cases hun

/-- The aliases that a file uses get their numbers. -/
theorem allNumbered_aliases {imports : List (Char × Int × List Block)}
    (h : OnlyEntrances names (openCells rows)) (himports : imports.map (·.1) = usedAliases rows) :
    AllNumbered (numberAliases imports rows) := by
  intro c hc
  unfold numberAliases at hc
  rw [openCells_mapOpen (number_glyph _)] at hc
  obtain ⟨c₀, hc₀, rfl⟩ := List.mem_map.mp hc
  cases hun : isUnnumbered c₀ with
  | false =>
    rw [number_eq_self _ hun]
    exact hun
  | true =>
    have hused : c₀.glyph ∈ imports.map (·.1) := by
      rw [himports, usedAliases, List.mem_eraseDups]
      refine List.mem_map.mpr ⟨c₀, List.mem_filter.mpr ⟨hc₀, ?_⟩, rfl⟩
      exact (wantsLibrary_iff h hc₀).mpr hun
    obtain ⟨i, hi, hglyph⟩ := List.mem_map.mp hused
    apply number_numbered
    rw [Option.isSome_map, List.find?_isSome]
    exact ⟨i, hi, by simpa using hglyph⟩

/-- Where all that is read has its numbers, so has all that a file is expanded to. -/
theorem expandByAliasWith_numbered {blocks : List Block} {n n' : Int}
    (hload : ∀ link name n blocks n', load link name n = .ok blocks n' →
      ∀ block ∈ blocks, AllNumbered block)
    (h : expandByAliasWith load rows n = .ok blocks n') : ∀ block ∈ blocks, AllNumbered block := by
  unfold expandByAliasWith at h
  simp only [bind_ok_iff, pure_ok_iff] at h
  obtain ⟨rows₁, _, hletters, names, _, -, imports, _, himports, rfl, rfl⟩ := h
  have hentrances : OnlyEntrances names (openCells (markAliases names rows₁)) :=
    onlyEntrances_markAliases (allNumbered_letters hletters)
  intro block hblock
  rcases List.mem_cons.mp hblock with rfl | hblock
  · exact allNumbered_aliases hentrances (importAll_aliases himports)
  · exact importAll_forall hload himports block hblock

/-- To go through a file that gets longer meanwhile is to take its aliases one by
    one. -/
theorem expandWith_eq (rows : Block)
    (hload : ∀ link name n blocks n', load link name n = .ok blocks n' →
      ∀ block ∈ blocks, AllNumbered block)
    {rounds : Nat} (hrounds : rounds = 0 → ∀ link name n blocks n',
      load link name n ≠ .ok blocks n') :
    expandWith (rounds + 1) load rows = expandByAliasWith load rows := by
  funext n
  unfold expandWith expandByAliasWith
  cases hletters : numberLetters (markLetters (warpLetters (rows.map glyphs)) rows) n with
  | error e n' => rw [bind_of_error hletters, bind_of_error hletters]
  | ok rows₁ n' =>
    rw [bind_of_ok hletters, bind_of_ok hletters]
    refine congrFun (congrArg (_ >>= ·) (funext fun names => ?_)) n'
    exact importBlocks_run (onlyEntrances_markAliases (allNumbered_letters hletters)) hload hrounds

end

/-- What is expanded alias by alias has all its numbers, through all libraries. -/
theorem expandByAlias_numbered {shelf : Shelf} {depth : Nat} {rows : Block} {blocks : List Block}
    {n n' : Int} (h : expandByAlias shelf depth rows n = .ok blocks n') :
    ∀ block ∈ blocks, AllNumbered block := by
  induction depth generalizing rows blocks n n' with
  | zero =>
    refine expandByAliasWith_numbered (fun _ _ _ _ _ hload => ?_) h
    split at hload <;> cases hload
  | succ depth ih =>
    refine expandByAliasWith_numbered (fun _ _ _ _ _ hload => ?_) h
    obtain ⟨_, _, -, hexpand⟩ := bind_ok_iff.mp hload
    exact ih hexpand

/-- Through all libraries, the loop does what is done alias by alias: it never
    imports anything for a row that has been appended. -/
theorem expand_eq_expandByAlias (shelf : Shelf) (depth : Nat) (rows : Block) :
    expand shelf depth rows = expandByAlias shelf depth rows := by
  induction depth generalizing rows with
  | zero =>
    have hnone : ∀ (link : Int) (name : String) (n : Int) (blocks : List Block) (n' : Int),
        (if (shelf.text? name).isSome then throw .endlessImport
          else throw (.missingLibrary name) : Builder (List Block)) n ≠ .ok blocks n' := by
      intro link name n blocks n' h
      split at h <;> cases h
    exact expandWith_eq rows
      (fun link name n blocks n' h => absurd h (hnone link name n blocks n')) fun _ => hnone
  | succ depth ih =>
    have hload : (fun link name => openLibrary shelf .exposed (some link) name >>=
          expand shelf depth) =
        fun link name => openLibrary shelf .exposed (some link) name >>=
          expandByAlias shelf depth := by
      funext link name
      rw [funext ih]
    unfold expand expandByAlias
    show expandWith (depth + 2) (fun link name => _ >>= expand shelf depth) rows = _
    rw [hload]
    refine expandWith_eq rows (fun _ _ _ _ _ h => ?_) fun hzero => by cases hzero
    obtain ⟨_, _, -, hexpand⟩ := bind_ok_iff.mp h
    exact expandByAlias_numbered hexpand

end DotPaths.World
