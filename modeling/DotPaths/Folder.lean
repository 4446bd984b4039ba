import DotPaths.Library
import DotPaths.Text.Lines

/-! # Folders

    The files that a program can see: those around the program itself and the
    built-in libraries.  A name may lead through folders, with a single dot for
    the folder itself and two for the one around it.

    Outside of the files there are only folders: those around them, and those
    that every system has at its root.
-/

namespace DotPaths

/-- Files by their paths from a common folder. -/
structure Folder where
  files : List (List String × List Char)

/-- What a name leads to. -/
inductive Found where
  | file (path : List String) (text : List Char)
  | folder
  /-- The name goes on after a file. -/
  | notFolder
  /-- The name, or a step of it, is longer than names can be. -/
  | tooLong
  | missing
  deriving DecidableEq, Repr

/-- Where the steps of a name have come to. -/
inductive Place where
  /-- A folder among the files. -/
  | inside (path : List String)
  /-- A folder around the files, or beside them. -/
  | outside
  /-- The root of the system. -/
  | root
  deriving DecidableEq, Repr

/-- The folder around a place. -/
def Place.around : Place → Place
  | .inside [] => .outside
  | .inside path => .inside path.dropLast
  | .outside => .outside
  | .root => .root

namespace Folder

/-- The text of the file at a path. -/
def file? (f : Folder) (path : List String) : Option (List Char) :=
  (f.files.find? (·.1 == path)).map (·.2)

/-- Is there a folder at a path?  The common folder is one, and every proper
    beginning of the path of a file. -/
def isFolder (f : Folder) (path : List String) : Bool :=
  path.isEmpty || f.files.any fun e => path.isPrefixOf e.1 && path.length < e.1.length

/-- The folders at the root of every system. -/
def systemFolders : List String :=
  ["bin", "boot", "dev", "etc", "home", "lib", "media", "mnt", "opt", "proc", "root", "run",
   "sbin", "srv", "sys", "tmp", "usr", "var"]

/-- The most bytes of a step. -/
def stepLimit : Nat := 255

/-- The most bytes of a name. -/
def nameLimit : Nat := 4095

/-- Follow the steps of a name from a place. -/
def follow (f : Folder) (place : Place) : List String → Found
  | [] => .folder
  | step :: steps =>
    if step == "" || step == "." then f.follow place steps
    else if step == ".." then f.follow place.around steps
    else if stepLimit < step.utf8ByteSize then .tooLong
    else
      match place with
      | .outside => .missing
      | .root => if systemFolders.contains step then f.follow .outside steps else .missing
      | .inside here =>
        let path := here ++ [step]
        match f.file? path with
        | some text => if steps.isEmpty then .file path text else .notFolder
        | none => if f.isFolder path then f.follow (.inside path) steps else .missing

/-- The steps of a name: what stands between its slashes. -/
def steps (name : String) : List String :=
  (Text.splitOn '/' name.toList).map String.ofList

/-- What a name leads to from the folder `here`.  A name that starts with a
    slash starts from the root of the system. -/
def find (f : Folder) (here : List String) (name : String) : Found :=
  if nameLimit < name.utf8ByteSize then .tooLong
  else
    match steps name with
    | [""] => .missing
    | "" :: rest => f.follow .root rest
    | all => f.follow (.inside here) all

/-- Where the built-in libraries are. -/
def builtInPath : List String := ["dots", "libs"]

/-- The folder of the built-in libraries. -/
def builtIn : Folder :=
  ⟨Library.all.map fun (name, rows) =>
    (builtInPath ++ [name], Text.joinWith '\n' (rows.map String.toList))⟩

/-- The steps of a name without the folders that it leaves again. -/
def normalize (name : String) : List String :=
  let all := steps name
  let top := if all.head? == some "" then [""] else []
  top ++ all.foldl (fun done step =>
    if step == "" || step == "." then done
    else if step == ".." then done.dropLast
    else done ++ [step]) []

end Folder

/-- What a program can import: the files around it, seen from its own folder,
    and the built-in libraries. -/
structure Shelf where
  folder : Folder
  here : List String

namespace Shelf

/-- The text of a library: from the folder of the program, or else a built-in
    one. -/
def text? (s : Shelf) (name : String) : Option (List Char) :=
  match s.folder.find s.here name with
  | .file _ text => some (Text.unifyNewlines text)
  | _ =>
    match Folder.builtIn.find Folder.builtInPath name with
    | .file _ text => some (Text.unifyNewlines text)
    | _ => none

/-- The number of files that can be imported. -/
def size (s : Shelf) : Nat :=
  s.folder.files.length + Folder.builtIn.files.length

end Shelf

end DotPaths
