import MinBasic.Channel.Input

/-!
# Folders

The files that a program can open, as the working folder holds them.  A path is
followed part by part: `.` and empty parts stay, `..` goes up, and every other
part must name something.  What lies outside the working folder can be passed
through upwards but holds nothing else.

A folder can be opened but not read.  A part that is too long is refused when it
is reached, so a path that fails earlier fails for its earlier reason.
-/

namespace MinBasic.Files

open Channel

/-- A name in a folder. -/
abbrev Name :=
  List Char

/-- The names that lead to something from the working folder. -/
abbrev Path :=
  List Name

/-- The parts of a path as it is written. -/
def parts (path : String) : List Name :=
  path.toList.splitOn '/'

/-- The size of a name on disk. -/
def byteLength (name : Name) : Nat :=
  (name.flatMap String.utf8EncodeChar).length

/-- The longest name, in bytes. -/
def nameLimit : Nat := 255

/-- The longest path, in bytes. -/
def pathLimit : Nat := 4095

/-- Whether a part of a path stays where it is. -/
def isIdle (part : Name) : Bool :=
  part = [] || part = ['.']

/-- What a path leads to. -/
inductive Entry where
  | folder
  | file (content : Bytes)
  deriving DecidableEq, Repr

/-- The working folder: the paths of its folders, and its files with their
content.  A folder on the way to another entry need not be listed. -/
structure Folder where
  folders : List Path := []
  files : List (Path × Bytes) := []
  deriving DecidableEq, Repr

namespace Folder

/-- The working folder with named folders and files. -/
def ofNames (folders : List String) (files : List (String × Bytes)) : Folder where
  folders := folders.map path
  files := files.map fun file => (path file.1, file.2)
where
  /-- The path that a name spells. -/
  path (name : String) : Path :=
    (parts name).filter (!isIdle ·)

/-- What lies under a path. -/
def entry? (folder : Folder) (path : Path) : Option Entry :=
  match folder.files.find? (·.1 = path) with
  | some file => some (.file file.2)
  | none =>
      if path = [] ∨ (folder.folders ++ folder.files.map Prod.fst).any path.isPrefixOf then
        some .folder
      else
        none

/-- The folder above a folder; `none` stands for the folders above the working
folder. -/
def parent : Option Path → Option Path
  | none => none
  | some path => if path = [] then none else some path.dropLast

/-- Follow the parts of a path from a folder. -/
def follow (folder : Folder) : Option Path → List Name → Except Refusal Entry
  | _, [] => .ok .folder
  | place, part :: more =>
      if isIdle part then
        folder.follow place more
      else if part = ['.', '.'] then
        folder.follow (parent place) more
      else if nameLimit < byteLength part then
        .error .nameTooLong
      else
        match place with
        | none => .error .missing
        | some path =>
            match folder.entry? (path ++ [part]) with
            | none => .error .missing
            | some .folder => folder.follow (some (path ++ [part])) more
            | some (.file content) =>
                if more = [] then .ok (.file content) else .error .notFolder

/-- Open the input under a path. -/
def openSource (folder : Folder) (path : String) : Except Refusal Input :=
  let name := path.toList
  if Char.ofNat 0 ∈ name then
    .error .nulInName
  else if name = [] then
    .error .missing
  else if pathLimit < byteLength name then
    .error .nameTooLong
  else
    match folder.follow (if name.head? = some '/' then none else some []) (parts path) with
    | .error refusal => .error refusal
    | .ok .folder => .ok (.unreadable .isFolder)
    | .ok (.file content) => .ok { content }

end Folder

end MinBasic.Files
