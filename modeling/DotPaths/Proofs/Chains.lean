import Mathlib.Data.List.Perm.Subperm
import DotPaths.Proofs.Expansion

/-! # Chains of imports

    A chain leads from a text to a file that it imports, from there to a file that
    this one imports, and so on.  If no chain comes back to a file, there are no
    more files in it than there are on the shelf, and building comes to an end.
    A world that is built, on the other hand, has been expanded to the last file,
    so that no chain can come back.

    The depth to which imports are followed is bounded in the definition of a
    building, and so is the number of rounds in which a file gets longer.  Here the
    bound is a number of any size, and it is said when it makes no difference.
-/

namespace DotPaths

/-! ## Files -/

/-- A file that can be imported: one around the program or a built-in one, by its
    path. -/
inductive LibraryFile where
  | around (path : List String)
  | builtIn (path : List String)
  deriving DecidableEq

namespace Folder

/-- What a name leads to is found at its path. -/
theorem file?_of_follow {f : Folder} {place : Place} {steps path : List String} {text : List Char}
    (h : f.follow place steps = .file path text) : f.file? path = some text := by
  induction steps generalizing place with
  | nil => cases h
  | cons step steps ih =>
    unfold follow at h
    split at h
    · exact ih h
    · split at h
      · exact ih h
      · split at h
        · cases h
        · split at h
          · cases h
          · split at h
            · exact ih h
            · cases h
          · simp only at h
            split at h
            · next text' htext =>
              split at h
              · cases h
                exact htext
              · cases h
            · split at h
              · exact ih h
              · cases h

theorem file?_of_find {f : Folder} {here path : List String} {name : String} {text : List Char}
    (h : f.find here name = .file path text) : f.file? path = some text := by
  unfold find at h
  split at h
  · cases h
  · split at h
    · cases h
    · exact file?_of_follow h
    · exact file?_of_follow h

theorem mem_of_file? {f : Folder} {path : List String} {text : List Char}
    (h : f.file? path = some text) : path ∈ f.files.map Prod.fst := by
  unfold file? at h
  obtain ⟨e, he, -⟩ := Option.map_eq_some_iff.mp h
  have hpath := List.find?_some he
  rw [beq_iff_eq] at hpath
  exact List.mem_map.mpr ⟨e, List.mem_of_find?_eq_some he, hpath⟩

end Folder

namespace Shelf

/-- The file to which a name leads. -/
def file? (s : Shelf) (name : String) : Option LibraryFile :=
  match s.folder.find s.here name with
  | .file path _ => some (.around path)
  | _ =>
    match Folder.builtIn.find Folder.builtInPath name with
    | .file path _ => some (.builtIn path)
    | _ => none

/-- The text of a file. -/
def textOf? (s : Shelf) : LibraryFile → Option (List Char)
  | .around path => (s.folder.file? path).map Text.unifyNewlines
  | .builtIn path => (Folder.builtIn.file? path).map Text.unifyNewlines

/-- All files. -/
def files (s : Shelf) : List LibraryFile :=
  s.folder.files.map (fun e => .around e.1) ++ Folder.builtIn.files.map fun e => .builtIn e.1

theorem length_files (s : Shelf) : s.files.length = s.size := by
  unfold files size
  rw [List.length_append, List.length_map, List.length_map]

theorem mem_files {s : Shelf} {p : LibraryFile} {text : List Char} (h : s.textOf? p = some text) :
    p ∈ s.files := by
  unfold files
  cases p with
  | around path =>
    obtain ⟨_, hfile, -⟩ := Option.map_eq_some_iff.mp h
    obtain ⟨e, he, rfl⟩ := List.mem_map.mp (Folder.mem_of_file? hfile)
    exact List.mem_append_left _ (List.mem_map_of_mem he)
  | builtIn path =>
    obtain ⟨_, hfile, -⟩ := Option.map_eq_some_iff.mp h
    obtain ⟨e, he, rfl⟩ := List.mem_map.mp (Folder.mem_of_file? hfile)
    exact List.mem_append_right _ (List.mem_map_of_mem he)

/-- The text to which a name leads is that of a file. -/
theorem text?_eq (s : Shelf) (name : String) : s.text? name = (s.file? name).bind s.textOf? := by
  unfold text? file?
  cases hfind : s.folder.find s.here name with
  | file path text =>
    show _ = (s.folder.file? path).map Text.unifyNewlines
    rw [Folder.file?_of_find hfind, Option.map_some]
  | _ =>
    cases hbuiltIn : Folder.builtIn.find Folder.builtInPath name with
    | file path text =>
      show _ = (Folder.builtIn.file? path).map Text.unifyNewlines
      rw [Folder.file?_of_find hbuiltIn, Option.map_some]
    | _ => rfl

end Shelf

namespace World

/-! ## Chains -/

/-- The text imports a file: through an alias that occurs in one of its rows that do
    not begin with a percent sign. -/
def ImportsFile (shelf : Shelf) (text : List Char) (p : LibraryFile) : Prop :=
  ∃ c ∈ aliasesUsed text, ∃ name, fileFor? text c = some name ∧ shelf.file? name = some p

/-- Files of which each imports the next, from a text to the text of the last one. -/
inductive Chain (shelf : Shelf) : List Char → List LibraryFile → List Char → Prop where
  | nil {text : List Char} : Chain shelf text [] text
  | cons {text inner last : List Char} {p : LibraryFile} {ps : List LibraryFile}
      (hfile : ImportsFile shelf text p) (htext : shelf.textOf? p = some inner)
      (hrest : Chain shelf inner ps last) : Chain shelf text (p :: ps) last

/-- No chain from the text comes back to a file. -/
def Acyclic (shelf : Shelf) (text : List Char) : Prop :=
  ∀ ps last, Chain shelf text ps last → ps.Nodup

namespace Chain

variable {shelf : Shelf} {text last : List Char} {ps : List LibraryFile}

/-- A chain may go on from its end. -/
theorem snoc {inner : List Char} {p : LibraryFile} (h : Chain shelf text ps last)
    (hfile : ImportsFile shelf last p) (htext : shelf.textOf? p = some inner) :
    Chain shelf text (ps ++ [p]) inner := by
  induction h with
  | nil => exact .cons hfile htext .nil
  | cons hfile' htext' _ ih => exact .cons hfile' htext' (ih hfile)

theorem subset_files (h : Chain shelf text ps last) : ∀ p ∈ ps, p ∈ shelf.files := by
  induction h with
  | nil =>
    intro p hp
    cases hp
  | cons _ htext _ ih => exact List.forall_mem_cons.mpr ⟨Shelf.mem_files htext, ih⟩

/-- A chain that does not come back is no longer than there are files. -/
theorem length_le (h : Chain shelf text ps last) (hnodup : ps.Nodup) : ps.length ≤ shelf.size := by
  rw [← shelf.length_files]
  exact (List.subperm_of_subset hnodup h.subset_files).length_le

end Chain

/-! ## What has been expanded -/

namespace Imports

variable {shelf : Shelf} {path text cs : List Char} {uses : List FileUse}

/-- How much a text imports does not depend on where it is imported itself. -/
theorem length_eq {path' : List Char} {uses' : List FileUse} (h : Imports shelf path text cs uses)
    (h' : Imports shelf path' text cs uses') : uses.length = uses'.length := by
  induction h generalizing path' uses' with
  | nil =>
    cases h'
    rfl
  | cons hfile htext _ _ ihbelow ihrest =>
    cases h' with
    | cons hfile' htext' hbelow' hrest' =>
      cases hfile.symm.trans hfile'
      cases htext.symm.trans htext'
      simp only [List.length_append, List.length_cons, ihbelow hbelow', ihrest hrest']

/-- A library imports less than the text that imports it. -/
theorem library {c : Char} (h : Imports shelf path text cs uses) (hc : c ∈ cs) :
    ∃ name inner below, fileFor? text c = some name ∧ shelf.text? name = some inner ∧
      Imports shelf (path ++ [c]) inner (aliasesUsed inner) below ∧ below.length < uses.length := by
  induction h with
  | nil => cases hc
  | @cons path text inner cs d name below rest hfile htext hbelow _ _ ihrest =>
    rcases List.mem_cons.mp hc with rfl | hc
    · refine ⟨name, inner, below, hfile, htext, hbelow, ?_⟩
      simp only [List.length_append, List.length_cons]
      omega
    · obtain ⟨name', inner', below', hfile', htext', hbelow', hlt⟩ := ihrest hc
      refine ⟨name', inner', below', hfile', htext', hbelow', ?_⟩
      simp only [List.length_append, List.length_cons]
      omega

theorem file {p : LibraryFile} {inner : List Char}
    (h : Imports shelf path text (aliasesUsed text) uses) (hfile : ImportsFile shelf text p)
    (htext : shelf.textOf? p = some inner) :
    ∃ path' below, Imports shelf path' inner (aliasesUsed inner) below ∧
      below.length < uses.length := by
  obtain ⟨c, hc, name, hname, hp⟩ := hfile
  obtain ⟨name', inner', below, hname', htext', hbelow, hlt⟩ := h.library hc
  cases hname.symm.trans hname'
  -- The text behind the name and the text of the file are the same.
  rw [shelf.text?_eq, hp, Option.bind_some, htext] at htext'
  cases htext'
  exact ⟨_, below, hbelow, hlt⟩

end Imports

namespace Chain

variable {shelf : Shelf} {path text last : List Char} {ps : List LibraryFile} {uses : List FileUse}

/-- The files of a chain import less than the text at its beginning. -/
theorem imports_less (h : Chain shelf text ps last)
    (himports : Imports shelf path text (aliasesUsed text) uses) :
    ∀ p ∈ ps, ∃ inner path' below, shelf.textOf? p = some inner ∧
      Imports shelf path' inner (aliasesUsed inner) below ∧ below.length < uses.length := by
  induction h generalizing path uses with
  | nil =>
    intro p hp
    cases hp
  | @cons text inner last p ps hfile htext _ ih =>
    obtain ⟨path', below, hbelow, hlt⟩ := himports.file hfile htext
    refine List.forall_mem_cons.mpr ⟨⟨inner, path', below, htext, hbelow, hlt⟩, ?_⟩
    intro q hq
    obtain ⟨inner', path'', below', htext', hbelow', hlt'⟩ := ih hbelow q hq
    exact ⟨inner', path'', below', htext', hbelow', Nat.lt_trans hlt' hlt⟩

theorem nodup (h : Chain shelf text ps last)
    (himports : Imports shelf path text (aliasesUsed text) uses) : ps.Nodup := by
  induction h generalizing path uses with
  | nil => exact List.nodup_nil
  | @cons text inner last p ps hfile htext hrest ih =>
    obtain ⟨path', below, hbelow, -⟩ := himports.file hfile htext
    refine List.nodup_cons.mpr ⟨?_, ih hbelow⟩
    -- A file that comes back would import less than it does itself.
    intro hp
    obtain ⟨inner', path'', below', htext', hbelow', hlt⟩ := hrest.imports_less hbelow p hp
    cases htext.symm.trans htext'
    rw [hbelow.length_eq hbelow'] at hlt
    exact Nat.lt_irrefl _ hlt

end Chain

theorem IsExpansion.acyclic {shelf : Shelf} {program : List Char} {uses : List FileUse}
    (h : IsExpansion shelf program uses) : Acyclic shelf program := by
  obtain ⟨below, hbelow, -⟩ := h
  exact fun ps last hchain => hchain.nodup hbelow

/-! ## Rows that are ready for imports -/

section settled
variable {text : List Char} {rows rows' : Block} {n n' : Int}

theorem isUnnumbered_number (f : Char → Int) (c : Cell) :
    isUnnumbered (number (fun g => some (f g)) c) = false := by
  obtain ⟨glyph, kind⟩ := c
  cases kind with
  | warp v =>
    cases hlink : v.link with
    | none => simp [number, isUnnumbered, CellKind.warp?, hlink]
    | some k => simp [number, isUnnumbered, CellKind.warp?, hlink]
  | _ => rfl

/-- Every letter gets a number. -/
theorem Settled.letters {marks : List Char} (h : Settled rows text)
    (hn : numberLetters (markLetters marks rows) n = .ok rows' n') : Settled rows' text := by
  refine ⟨(letters_characters hn).trans h.characters, ?_⟩
  obtain ⟨letters, -, -, rfl, -⟩ := numberLetters_ok hn
  intro c hc
  rw [openCells_map (number_glyph _)] at hc
  obtain ⟨c₁, -, rfl⟩ := List.mem_map.mp hc
  exact isUnnumbered_number _ c₁

/-- The exposed cells of a library have a number from the beginning. -/
theorem openLibrary_settled {shelf : Shelf} {name : String} {link : Int}
    (h : openLibrary shelf .exposed (some link) name n = .ok rows n') :
    ∃ inner, shelf.text? name = some inner ∧ Settled rows inner := by
  unfold openLibrary at h
  cases htext : shelf.text? name with
  | none =>
    rw [htext] at h
    cases h
  | some inner =>
    rw [htext] at h
    obtain ⟨hrows, rfl⟩ := orFail_ok_iff.mp h
    refine ⟨inner, rfl, exposedRows_glyphs hrows, ?_⟩
    intro c hc
    obtain ⟨row, hrow, -, hmem⟩ := mem_openCells.mp hc
    unfold isUnnumbered
    cases hkind : c.kind with
    | warp v =>
      rw [exposedRows_warps hrows row hrow c hmem v hkind]
      rfl
    | _ => rfl

end settled

/-! ## Imports that come to an end -/

/-- The action never runs out of depth. -/
def NotEndless {α : Type} (a : Builder α) : Prop := ∀ n n', a n ≠ .error .endlessImport n'

namespace NotEndless

variable {α β : Type} {a : Builder α}

theorem pure (x : α) : NotEndless (Pure.pure x : Builder α) := by
  intro n n' h
  cases h

theorem orFail {x : Except DrawingFault α} (h : x ≠ .error .endlessImport) :
    NotEndless (orFail x) := by
  intro n n' herror
  cases x with
  | ok y => cases herror
  | error f =>
    cases herror
    exact h rfl

/-- What follows matters only for what comes before. -/
theorem bind {f : α → Builder β} (h : NotEndless a)
    (hf : ∀ n x n', a n = .ok x n' → NotEndless (f x)) : NotEndless (a >>= f) := by
  intro n n' herror
  rcases bind_error_iff.mp herror with herror | ⟨x, t, hx, herror⟩
  · exact h n n' herror
  · exact hf n x t hx t n' herror

theorem mapM {f : α → Builder β} {l : List α} (h : ∀ x ∈ l, NotEndless (f x)) :
    NotEndless (l.mapM f) := by
  induction l with
  | nil =>
    rw [List.mapM_nil]
    exact pure _
  | cons x l ih =>
    obtain ⟨hx, hl⟩ := List.forall_mem_cons.mp h
    rw [List.mapM_cons]
    exact hx.bind fun _ _ _ _ => (ih hl).bind fun _ _ _ _ => pure _

end NotEndless

theorem aliases_ne_endless (rows : List (List Char)) : aliases rows ≠ .error .endlessImport := by
  induction rows with
  | nil =>
    intro h
    cases h
  | cons row rows ih =>
    intro h
    unfold aliases at h
    cases hfirst : aliasOf row with
    | error f =>
      rw [hfirst] at h
      cases h
      unfold aliasOf at hfirst
      split at hfirst
      · split at hfirst <;> cases hfirst
      · cases hfirst
    | ok first =>
      cases hothers : aliases rows with
      | error f =>
        rw [hfirst, hothers] at h
        cases h
        exact ih hothers
      | ok others =>
        rw [hfirst, hothers] at h
        cases h

theorem exposedRows_ne_endless {role : WarpRole} {link : Option Int} {shown : Option Char}
    (rows : List (List Char)) : exposedRows role link shown rows ≠ .error .endlessImport := by
  have hmap : ∀ {x : Except DrawingFault Block} {first : List Cell}, x ≠ .error .endlessImport →
      x.map (first :: ·) ≠ .error .endlessImport := by
    intro x first hx h
    cases x with
    | ok rest => cases h
    | error f =>
      cases h
      exact hx rfl
  induction rows generalizing shown with
  | nil =>
    intro h
    cases h
  | cons row rows ih =>
    unfold exposedRows
    split
    · split <;> simp
    · split
      · exact hmap ih
      · simp
    · exact hmap ih
    · exact hmap ih

theorem openLibrary_notEndless (shelf : Shelf) (role : WarpRole) (link : Option Int)
    (name : String) : NotEndless (openLibrary shelf role link name) := by
  unfold openLibrary
  cases shelf.text? name with
  | none =>
    intro n n' h
    cases h
  | some text => exact .orFail (exposedRows_ne_endless _)

theorem takeLinks_notEndless (k : Nat) : NotEndless (takeLinks k) := by
  intro n n' h
  cases h

/-- Expanding a text never runs out of depth if reading its libraries does not. -/
theorem expandByAliasWith_notEndless {load : Int → String → Builder (List Block)} {rows : Block}
    {text : List Char} (hrows : Settled rows text)
    (hload : ∀ c ∈ aliasesUsed text, ∀ name, fileFor? text c = some name →
      ∀ link, NotEndless (load link name)) : NotEndless (expandByAliasWith load rows) := by
  unfold expandByAliasWith
  have hnumber : NotEndless (numberLetters (markLetters (warpLetters (rows.map glyphs)) rows)) :=
    (takeLinks_notEndless _).bind fun _ _ _ _ => .pure _
  refine hnumber.bind fun n rows₁ n' hn => ?_
  refine (NotEndless.orFail (aliases_ne_endless _)).bind fun m names m' hm => ?_
  obtain ⟨haliases, -⟩ := orFail_ok_iff.mp hm
  rw [hrows.characters] at haliases
  have hnames : Names names text := names_of_aliases haliases
  refine NotEndless.bind (.mapM fun c hc => ?_) fun _ _ _ _ => .pure _
  -- The letters have their numbers, so what is found without one is an alias.
  rw [(hrows.letters hn).usedAliases hnames] at hc
  have hused : (fileFor? text c).isSome = true :=
    (List.mem_filter.mp (List.mem_eraseDups.mp hc)).2
  obtain ⟨name, hname⟩ := Option.isSome_iff_exists.mp hused
  rw [importAlias, hnames c, hname]
  exact (takeLinks_notEndless 1).bind fun _ link _ _ =>
    (hload c hc name hname link).bind fun _ _ _ _ => .pure _

/-- If no chain comes back to a file, a depth is enough that leaves room for all
    files that are not in the chain to a text. -/
theorem expand_notEndless {shelf : Shelf} {program text : List Char} {ps : List LibraryFile}
    {rows : Block} {depth : Nat} (hacyclic : Acyclic shelf program)
    (hchain : Chain shelf program ps text) (hrows : Settled rows text)
    (hdepth : shelf.size ≤ depth + ps.length) : NotEndless (expand shelf depth rows) := by
  rw [expand_eq_expandByAlias]
  -- A library that is read makes the chain longer.
  have hlonger : ∀ {text ps}, Chain shelf program ps text → ∀ c ∈ aliasesUsed text, ∀ name,
      fileFor? text c = some name → ∀ inner, shelf.text? name = some inner →
      ∃ p, Chain shelf program (ps ++ [p]) inner := by
    intro text ps hchain c hc name hname inner htext
    rw [shelf.text?_eq] at htext
    obtain ⟨p, hp, htext⟩ := Option.bind_eq_some_iff.mp htext
    exact ⟨p, hchain.snoc ⟨c, hc, name, hname, hp⟩ htext⟩
  induction depth generalizing ps text rows with
  | zero =>
    unfold expandByAlias
    refine expandByAliasWith_notEndless hrows fun c hc name hname link => ?_
    have hmissing : (shelf.text? name).isSome = false := by
      rw [Option.isSome_eq_false_iff, Option.isNone_iff_eq_none, Option.eq_none_iff_forall_ne_some]
      intro inner htext
      obtain ⟨p, hchain'⟩ := hlonger hchain c hc name hname inner htext
      -- There would be one file more in the chain than there are on the shelf.
      have hle := hchain'.length_le (hacyclic _ _ hchain')
      rw [List.length_append, List.length_singleton] at hle
      omega
    rw [hmissing]
    intro n n' h
    cases h
  | succ depth ih =>
    unfold expandByAlias
    refine expandByAliasWith_notEndless hrows fun c hc name hname link => ?_
    refine (openLibrary_notEndless _ _ _ _).bind fun n rows' n' hopen => ?_
    obtain ⟨inner, htext, hrows'⟩ := openLibrary_settled hopen
    obtain ⟨p, hchain'⟩ := hlonger hchain c hc name hname inner htext
    refine ih hchain' hrows' ?_
    rw [List.length_append, List.length_singleton]
    omega

/-! ## Depths -/

/-- With more depth the action does the same, unless it had run out of depth. -/
def Deeper {α : Type} (a b : Builder α) : Prop :=
  ∀ n, (∀ n', a n ≠ .error .endlessImport n') → b n = a n

namespace Deeper

variable {α β : Type} {a b : Builder α}

theorem refl (a : Builder α) : Deeper a a := fun _ _ => rfl

theorem bind {f g : α → Builder β} (h : Deeper a b) (hf : ∀ x, Deeper (f x) (g x)) :
    Deeper (a >>= f) (b >>= g) := by
  intro n hends
  cases ha : a n with
  | ok x t =>
    have hb : b n = .ok x t := by
      rw [← ha]
      refine h n fun n' hn' => ?_
      rw [ha] at hn'
      cases hn'
    rw [bind_of_ok ha] at hends ⊢
    rw [bind_of_ok hb]
    exact hf x t hends
  | error e t =>
    have hb : b n = .error e t := by
      rw [← ha]
      refine h n fun n' hn' => ?_
      exact hends n' (bind_of_error hn')
    rw [bind_of_error ha, bind_of_error hb]

theorem mapM {f g : α → Builder β} (h : ∀ x, Deeper (f x) (g x)) (l : List α) :
    Deeper (l.mapM f) (l.mapM g) := by
  induction l with
  | nil => exact refl _
  | cons x l ih =>
    rw [List.mapM_cons, List.mapM_cons]
    exact (h x).bind fun _ => ih.bind fun _ => refl _

end Deeper

theorem expandByAliasWith_deeper {load load' : Int → String → Builder (List Block)}
    (h : ∀ link name, Deeper (load link name) (load' link name)) (rows : Block) :
    Deeper (expandByAliasWith load rows) (expandByAliasWith load' rows) := by
  refine (Deeper.refl _).bind fun rows₁ => (Deeper.refl _).bind fun names => ?_
  refine Deeper.bind (.mapM (fun c => ?_) _) fun _ => .refl _
  exact (Deeper.refl _).bind fun link => (h link _).bind fun _ => .refl _

theorem expand_deeper (shelf : Shelf) (depth : Nat) (rows : Block) :
    Deeper (expand shelf depth rows) (expand shelf (depth + 1) rows) := by
  rw [expand_eq_expandByAlias, expand_eq_expandByAlias]
  induction depth generalizing rows with
  | zero =>
    refine expandByAliasWith_deeper (fun link name n hends => ?_) rows
    cases htext : shelf.text? name with
    | none =>
      have hopen : openLibrary shelf .exposed (some link) name n =
          .error (.missingLibrary name) n := by
        unfold openLibrary
        rw [htext]
        rfl
      rw [bind_of_error hopen]
      rfl
    | some inner =>
      -- Without depth a library that exists cannot be read, which was excluded.
      refine absurd ?_ (hends n)
      rw [htext]
      rfl
  | succ depth ih =>
    exact expandByAliasWith_deeper (fun link name => (Deeper.refl _).bind fun rows' => ih rows') rows

/-! ## Building -/

/-- Build the world of a program with imports to a given depth, which also bounds
    how often a file may get longer while it is gone through. -/
def buildWithin (depth : Nat) (shelf : Shelf) (program : String) : Except DrawingFault World :=
  match expand shelf depth ((rowsOf program.toList).map plainRow) 0 with
  | .ok blocks next => .ok ⟨finish blocks.flatten, next⟩
  | .error f _ => .error f

/-- Building comes to an end with this result, if only the imports may be deep
    enough. -/
def EndsWith (shelf : Shelf) (program : String) (result : Except DrawingFault World) : Prop :=
  result ≠ .error .endlessImport ∧
    ∃ enough, ∀ depth, enough ≤ depth → buildWithin depth shelf program = result

/-- The depth to which imports are followed when a world is built. -/
theorem build_eq_buildWithin (shelf : Shelf) (program : String) :
    build shelf program = buildWithin shelf.size shelf program := rfl

theorem buildWithin_ne_endless {shelf : Shelf} {program : String} {depth : Nat}
    (h : Acyclic shelf program.toList) (hdepth : shelf.size ≤ depth) :
    ∀ n, expand shelf depth ((rowsOf program.toList).map plainRow) 0 ≠
      .error .endlessImport n :=
  expand_notEndless h .nil (drawn_program program.toList).settled hdepth 0

/-- Once the depth is enough for all files, more makes no difference. -/
theorem buildWithin_settled {shelf : Shelf} {program : String} {depth : Nat}
    (h : Acyclic shelf program.toList) (hdepth : shelf.size ≤ depth) :
    buildWithin depth shelf program = build shelf program := by
  induction hdepth with
  | refl => exact (build_eq_buildWithin shelf program).symm
  | @step depth hdepth ih =>
    rw [← ih]
    unfold buildWithin
    rw [expand_deeper shelf depth _ 0 (buildWithin_ne_endless h hdepth)]

theorem acyclic_of_buildWithin {shelf : Shelf} {program : String} {depth : Nat} {w : World}
    (h : buildWithin depth shelf program = .ok w) : Acyclic shelf program.toList := by
  unfold buildWithin at h
  split at h
  · next blocks next hexpand =>
    obtain ⟨uses, bonds, huses, -⟩ := expand_program hexpand
    exact huses.acyclic
  · cases h

/-- Imports come to an end exactly if they are acyclic.  If no chain from the
    program comes back to a file, building ends, and no deeper imports would give
    another result; and whenever a world is built, no chain comes back. -/
theorem building_ends_on_acyclic (shelf : Shelf) (program : String) :
    (Acyclic shelf program.toList → EndsWith shelf program (build shelf program)) ∧
      ∀ depth w, buildWithin depth shelf program = .ok w → Acyclic shelf program.toList := by
  refine ⟨fun h => ⟨?_, shelf.size, fun depth => buildWithin_settled h⟩,
    fun depth w => acyclic_of_buildWithin⟩
  intro hbuild
  unfold build at hbuild
  split at hbuild
  · cases hbuild
  · next f n hexpand =>
    cases hbuild
    exact buildWithin_ne_endless h (Nat.le_refl _) n hexpand

/-- A library that imports itself. -/
def loopLibrary : String := "%^X\n%!loop a\nX-a"

/-- A shelf with nothing else. -/
def loopShelf : Shelf := ⟨⟨[(["loop"], loopLibrary.toList)]⟩, []⟩

/-- A program that uses the library. -/
def loopProgram : String := "%!loop a\n.-a"

/-- The chain from the program to the library and back to it. -/
theorem loop_chain : Chain loopShelf loopProgram.toList
    [.around ["loop"], .around ["loop"]] loopLibrary.toList := by
  have hused : 'a' ∈ aliasesUsed loopProgram.toList := by decide +kernel
  have hused' : 'a' ∈ aliasesUsed loopLibrary.toList := by decide +kernel
  have hname : fileFor? loopProgram.toList 'a' = some "loop" := by decide +kernel
  have hname' : fileFor? loopLibrary.toList 'a' = some "loop" := by decide +kernel
  have hfile : loopShelf.file? "loop" = some (.around ["loop"]) := by decide +kernel
  have htext : loopShelf.textOf? (.around ["loop"]) = some loopLibrary.toList := by decide +kernel
  exact .cons ⟨'a', hused, "loop", hname, hfile⟩ htext
    (.cons ⟨'a', hused', "loop", hname', hfile⟩ htext .nil)

/-- The nested libraries are acyclic, and their world is built; with a library
    that imports itself no depth is enough. -/
theorem building_ends_nested :
    Acyclic nestedShelf nestedProgram.toList ∧
      (∃ w, EndsWith nestedShelf nestedProgram (.ok w)) ∧
      ∀ depth w, buildWithin depth loopShelf loopProgram ≠ .ok w := by
  obtain ⟨hends, hacyclic⟩ := building_ends_on_acyclic nestedShelf nestedProgram
  obtain ⟨w, hw⟩ : ∃ w, build nestedShelf nestedProgram = .ok w :=
    ⟨_, build_of_isSome (by decide +kernel)⟩
  have hnested : Acyclic nestedShelf nestedProgram.toList :=
    hacyclic nestedShelf.size w ((build_eq_buildWithin nestedShelf nestedProgram).symm.trans hw)
  rw [hw] at hends
  refine ⟨hnested, ⟨w, hends hnested⟩, ?_⟩
  intro depth w' hw'
  have hloop := (building_ends_on_acyclic loopShelf loopProgram).2 depth w' hw'
  have hnodup := hloop _ _ loop_chain
  rw [List.nodup_cons] at hnodup
  exact hnodup.1 List.mem_cons_self

end World

end DotPaths
