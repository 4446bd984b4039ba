import DotPaths.World.Build

/-! # Imports

    What it means for a text to be expanded: its own rows come first, then the
    expansion of the library of each alias that it uses, each alias once, in the
    order in which they occur.  The texts of an expansion are told apart by their
    paths: the aliases that lead to them, from the program on.

    Nothing is said here about how a world is built.
-/

namespace DotPaths.World

/-! ## Aliases of a text -/

/-- The library to which a row of the form `%!file c` gives the alias `c`. -/
def aliasRow? (c : Char) (row : List Char) : Option String :=
  match Text.trimRight row with
  | '%' :: '!' :: rest =>
    match Text.splitOn ' ' rest with
    | file :: name :: _ => if name = [c] then some (String.ofList file) else none
    | _ => none
  | _ => none

/-- The library for which a character stands in a text: that of the last row
    that makes it an alias. -/
def fileFor? (text : List Char) (c : Char) : Option String :=
  (rowsOf text).reverse.findSome? (aliasRow? c)

/-- Does the row begin with a percent sign? -/
def startsWithPercent (row : List Char) : Bool := row.head? == some '%'

/-- The aliases that occur in the rows that do not begin with a percent sign,
    each once, in the order in which they occur. -/
def aliasesUsed (text : List Char) : List Char :=
  (((rowsOf text).filter fun row => !startsWithPercent row).flatten.filter fun c =>
    (fileFor? text c).isSome).eraseDups

theorem eraseDups_nodup (l : List Char) : l.eraseDups.Nodup := by
  -- The rest of the list is shortened before it is looked at, hence by its length.
  induction hn : l.length using Nat.strongRecOn generalizing l with
  | ind n ih =>
    cases l with
    | nil => exact List.nodup_nil
    | cons c l =>
      have hlt : (l.filter fun d => !d == c).length < n := by
        have hle := List.length_filter_le (fun d => !d == c) l
        rw [List.length_cons] at hn
        omega
      rw [List.eraseDups_cons, List.nodup_cons]
      refine ⟨?_, ih _ hlt _ rfl⟩
      simp [List.mem_eraseDups]

theorem aliasesUsed_nodup (text : List Char) : (aliasesUsed text).Nodup :=
  eraseDups_nodup _

/-! ## Expansions -/

/-- A text in an expansion, and the aliases that lead to it. -/
structure FileUse where
  path : List Char
  text : List Char
  deriving DecidableEq

/-- What the text at `path` imports for the aliases in a list: for each of them,
    the library and all that the library imports in turn. -/
inductive Imports (shelf : Shelf) :
    (path text : List Char) → List Char → List FileUse → Prop where
  | nil {path text : List Char} : Imports shelf path text [] []
  | cons {path text inner cs : List Char} {c : Char} {name : String}
      {below rest : List FileUse} (hfile : fileFor? text c = some name)
      (htext : shelf.text? name = some inner)
      (hbelow : Imports shelf (path ++ [c]) inner (aliasesUsed inner) below)
      (hrest : Imports shelf path text cs rest) :
      Imports shelf path text (c :: cs) (⟨path ++ [c], inner⟩ :: below ++ rest)

/-- The texts of an expansion: the program and all that it imports. -/
def IsExpansion (shelf : Shelf) (program : List Char) (uses : List FileUse) : Prop :=
  ∃ below, Imports shelf [] program (aliasesUsed program) below ∧ uses = ⟨[], program⟩ :: below

/-! ## Paths -/

/-- Two ways on from the same path that lead to the same place are the same. -/
theorem eq_of_prefixes {path q : List Char} {c c' : Char} (h : path ++ [c] <+: q)
    (h' : path ++ [c'] <+: q) : c = c' := by
  have hlen : (path ++ [c]).length = (path ++ [c']).length := by simp
  have heq := (List.prefix_of_prefix_length_le h h' (Nat.le_of_eq hlen)).eq_of_length hlen
  simpa using heq

namespace Imports

variable {shelf : Shelf} {path text cs : List Char} {uses : List FileUse}

/-- A text can be expanded in one way only. -/
theorem unique {uses' : List FileUse} (h : Imports shelf path text cs uses)
    (h' : Imports shelf path text cs uses') : uses = uses' := by
  induction h generalizing uses' with
  | nil =>
    cases h'
    rfl
  | cons hfile htext _ _ ihbelow ihrest =>
    cases h' with
    | cons hfile' htext' hbelow' hrest' =>
      cases hfile.symm.trans hfile'
      cases htext.symm.trans htext'
      rw [ihbelow hbelow', ihrest hrest']

/-- All that is imported lies behind one of the aliases. -/
theorem behind (h : Imports shelf path text cs uses) :
    ∀ u ∈ uses, ∃ c ∈ cs, path ++ [c] <+: u.path := by
  induction h with
  | nil =>
    intro u hu
    cases hu
  | @cons path text inner cs c name below rest _ _ _ _ ihbelow ihrest =>
    intro u hu
    rcases List.mem_append.mp hu with hu | hu
    · refine ⟨c, by simp, ?_⟩
      rcases List.mem_cons.mp hu with rfl | hu
      · exact List.prefix_refl _
      · obtain ⟨d, -, hd⟩ := ihbelow u hu
        exact (List.prefix_append _ _).trans hd
    · obtain ⟨c', hc', hprefix⟩ := ihrest u hu
      exact ⟨c', by simp [hc'], hprefix⟩

/-- A text and what it imports lie at its path or behind it. -/
theorem front (h : Imports shelf path text cs uses) :
    ∀ u ∈ (⟨path, text⟩ : FileUse) :: uses, path <+: u.path := by
  intro u hu
  rcases List.mem_cons.mp hu with rfl | hu
  · exact List.prefix_refl _
  · obtain ⟨c, -, hc⟩ := h.behind u hu
    exact (List.prefix_append _ _).trans hc

/-- What is imported for other aliases does not lie behind this one. -/
theorem apart {c : Char} {q : List Char} {v : FileUse} (h : Imports shelf path text cs uses)
    (hc : c ∉ cs) (hv : v ∈ uses) (hq : v.path <+: q) : ¬ path ++ [c] <+: q := by
  intro hprefix
  obtain ⟨c', hc', hbehind⟩ := h.behind v hv
  cases eq_of_prefixes hprefix (hbehind.trans hq)
  exact hc hc'

/-- What a library imports has longer paths than the library. -/
theorem length_lt {u : FileUse} (h : Imports shelf path text cs uses) (hu : u ∈ uses) :
    path.length < u.path.length := by
  obtain ⟨c, -, hc⟩ := h.behind u hu
  have hle := hc.length_le
  rw [List.length_append, List.length_singleton] at hle
  omega

/-- Only the program itself has the empty path. -/
theorem path_ne_nil (h : Imports shelf path text cs uses) : ∀ u ∈ uses, u.path ≠ [] := by
  intro u hu hempty
  have hlt := h.length_lt hu
  rw [hempty] at hlt
  exact Nat.not_lt_zero _ hlt

/-- No path occurs twice. -/
theorem paths_nodup (h : Imports shelf path text cs uses) (hcs : cs.Nodup) :
    (uses.map FileUse.path).Nodup := by
  induction h with
  | nil => exact List.nodup_nil
  | @cons path text inner cs c name below rest _ _ hbelow hrest ihbelow ihrest =>
    obtain ⟨hc, hcs⟩ := List.nodup_cons.mp hcs
    have hown : path ++ [c] ∉ below.map FileUse.path := by
      intro hmem
      obtain ⟨u, hu, heq⟩ := List.mem_map.mp hmem
      have hlt := hbelow.length_lt hu
      rw [heq] at hlt
      exact Nat.lt_irrefl _ hlt
    rw [List.map_append, List.nodup_append]
    -- What lies behind `c` is told from the rest by how its path begins.
    refine ⟨List.nodup_cons.mpr ⟨hown, ihbelow (aliasesUsed_nodup inner)⟩, ihrest hcs, ?_⟩
    intro p hp q hq heq
    obtain ⟨u, hu, rfl⟩ := List.mem_map.mp hp
    obtain ⟨v, hv, rfl⟩ := List.mem_map.mp hq
    refine hrest.apart hc hv (List.prefix_refl _) ?_
    rw [← heq]
    exact hbelow.front u hu

/-- A text comes before all that lies behind it. -/
theorem paths_ordered (h : Imports shelf path text cs uses) (hcs : cs.Nodup) :
    uses.Pairwise fun u v => ¬ v.path <+: u.path := by
  induction h with
  | nil => exact .nil
  | @cons path text inner cs c name below rest _ _ hbelow hrest ihbelow ihrest =>
    obtain ⟨hc, hcs⟩ := List.nodup_cons.mp hcs
    refine List.pairwise_append.mpr ⟨List.pairwise_cons.mpr ⟨?_, ihbelow (aliasesUsed_nodup inner)⟩,
      ihrest hcs, ?_⟩
    · intro v hv hprefix
      exact Nat.not_le_of_lt (hbelow.length_lt hv) hprefix.length_le
    · intro u hu v hv hprefix
      exact hrest.apart hc hv hprefix (hbelow.front u hu)

/-- The aliases in the list lead on from the path itself, and from each text
    that is imported the aliases that are used in it; nothing else leads on. -/
theorem leads_on (h : Imports shelf path text cs uses) (hcs : cs.Nodup) :
    (∀ d, path ++ [d] ∈ uses.map FileUse.path ↔ d ∈ cs) ∧
      ∀ u ∈ uses, ∀ d, u.path ++ [d] ∈ uses.map FileUse.path ↔ d ∈ aliasesUsed u.text := by
  induction h with
  | nil => simp
  | @cons path text inner cs c name below rest _ _ hbelow hrest ihbelow ihrest =>
    obtain ⟨hc, hcs⟩ := List.nodup_cons.mp hcs
    obtain ⟨hroot, hinner⟩ := ihbelow (aliasesUsed_nodup inner)
    obtain ⟨hroot', hinner'⟩ := ihrest hcs
    refine ⟨?_, ?_⟩
    · intro d
      -- One step on from the path there is the library itself and nothing else of it.
      have hlibrary : path ++ [d] ∈ ((⟨path ++ [c], inner⟩ : FileUse) :: below).map FileUse.path ↔
          d = c := by
        constructor
        · intro hmem
          obtain ⟨v, hv, heq⟩ := List.mem_map.mp hmem
          have hprefix := hbelow.front v hv
          rw [heq] at hprefix
          exact (eq_of_prefixes hprefix (List.prefix_refl _)).symm
        · intro heq
          rw [heq]
          exact List.mem_cons_self
      rw [List.map_append, List.mem_append, hlibrary, hroot' d, List.mem_cons]
    · intro u hu d
      rw [List.map_append, List.mem_append]
      rcases List.mem_append.mp hu with hu | hu
      · -- From the library or behind it, one comes only to what it imports.
        have hprefix := (hbelow.front u hu).trans (List.prefix_append u.path [d])
        have hapart : u.path ++ [d] ∉ rest.map FileUse.path := by
          intro hmem
          obtain ⟨v, hv, heq⟩ := List.mem_map.mp hmem
          exact hrest.apart hc hv (heq ▸ List.prefix_refl _) hprefix
        have hne : u.path ++ [d] ≠ path ++ [c] := by
          intro heq
          have hle := (hbelow.front u hu).length_le
          rw [← heq, List.length_append, List.length_singleton] at hle
          omega
        rw [or_iff_left hapart, List.map_cons, List.mem_cons, or_iff_right hne]
        rcases List.mem_cons.mp hu with rfl | hu
        · exact hroot d
        · exact hinner u hu d
      · -- From what other aliases stand for, one does not come to this library.
        have hapart : u.path ++ [d] ∉
            ((⟨path ++ [c], inner⟩ : FileUse) :: below).map FileUse.path := by
          intro hmem
          obtain ⟨v, hv, heq⟩ := List.mem_map.mp hmem
          have hprefix := hbelow.front v hv
          rw [heq] at hprefix
          exact hrest.apart hc hu (List.prefix_append _ _) hprefix
        rw [or_iff_right hapart]
        exact hinner' u hu d

end Imports

namespace IsExpansion

variable {shelf : Shelf} {program : List Char} {uses : List FileUse}

theorem unique {uses' : List FileUse} (h : IsExpansion shelf program uses)
    (h' : IsExpansion shelf program uses') : uses' = uses := by
  obtain ⟨below, hbelow, rfl⟩ := h
  obtain ⟨below', hbelow', rfl⟩ := h'
  rw [hbelow.unique hbelow']

theorem paths_nodup (h : IsExpansion shelf program uses) : (uses.map FileUse.path).Nodup := by
  obtain ⟨below, hbelow, rfl⟩ := h
  have hroot : [] ∉ below.map FileUse.path := by
    intro hmem
    obtain ⟨u, hu, heq⟩ := List.mem_map.mp hmem
    have hlt := hbelow.length_lt hu
    rw [heq] at hlt
    exact Nat.lt_irrefl _ hlt
  exact List.nodup_cons.mpr ⟨hroot, hbelow.paths_nodup (aliasesUsed_nodup program)⟩

theorem paths_ordered (h : IsExpansion shelf program uses) :
    uses.Pairwise fun u v => ¬ v.path <+: u.path := by
  obtain ⟨below, hbelow, rfl⟩ := h
  refine List.pairwise_cons.mpr ⟨?_, hbelow.paths_ordered (aliasesUsed_nodup program)⟩
  intro v hv hprefix
  exact Nat.not_le_of_lt (hbelow.length_lt hv) hprefix.length_le

/-- From each text of an expansion exactly the aliases that are used in it lead
    on to another. -/
theorem leads_on (h : IsExpansion shelf program uses) :
    ∀ u ∈ uses, ∀ c, (∃ v ∈ uses, v.path = u.path ++ [c]) ↔ c ∈ aliasesUsed u.text := by
  obtain ⟨below, hbelow, rfl⟩ := h
  obtain ⟨hroot, hinner⟩ := hbelow.leads_on (aliasesUsed_nodup program)
  intro u hu c
  -- Nothing leads to the program itself.
  have hne : u.path ++ [c] ≠ [] := by simp
  rw [← List.mem_map, List.map_cons, List.mem_cons, or_iff_right hne]
  rcases List.mem_cons.mp hu with rfl | hu
  · exact hroot c
  · exact hinner u hu c

end IsExpansion

end DotPaths.World
