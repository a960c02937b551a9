import Sangria.Text.Quoted

/-!
# Files by path

A folder holds files and folders, each named by the path to it. A path is followed name by name: an
empty name or a dot stays where it is, two dots go up, and nothing can be found behind a file. What
is found where the path ends has to be a file.

Of what lies around the folder no more is known than that it is folders all the way up, so a path
that leaves the folder leads to one of those or to nothing.

This is one way to find the bytes at a path, for runs of the command on given files. The command
itself takes any (`command`).
-/

namespace Sangria

/-- Why a path leads to no file. -/
inductive AccessFault
  /-- There is nothing of that name. -/
  | missing
  /-- It leads to a folder. -/
  | folder
  /-- It goes on behind a file. -/
  | behindFile
  /-- A name in it is too long. -/
  | longName
  /-- It holds a character that no path holds. -/
  | null
  deriving DecidableEq, Repr

/-- Files and folders, with the names on the path to each. -/
structure Folder where
  /-- The files and their bytes. -/
  files : List (List String × List Nat)
  /-- The folders. -/
  folders : List (List String)

/-- The names in a path. -/
def pathNames (path : String) : List String :=
  path.splitOn "/"

namespace Folder

/-- The folder with given files and folders, each under its path. -/
def ofPaths (files : List (String × List Nat)) (folders : List String) : Folder :=
  ⟨files.map fun f ↦ (pathNames f.1, f.2), folders.map pathNames⟩

/-- Whether there is a folder at some names: one that was given, or one on the way to another
entry. -/
def hasFolder (f : Folder) (names : List String) : Bool :=
  (f.folders ++ f.files.map fun e ↦ e.1.dropLast).any names.isPrefixOf

/-- Follow the names that remain, from a place around the folder. -/
def followAround : List String → Except AccessFault (List Nat)
  | [] => .error .folder
  | name :: rest =>
    if name = "" ∨ name = "." ∨ name = ".." then followAround rest
    else if 255 < name.utf8ByteSize then .error .longName
    else .error .missing

/-- Follow the names that remain, from a place given by the names that lead to it. -/
def follow (f : Folder) (place : List String) : List String → Except AccessFault (List Nat)
  | [] =>
    match f.files.lookup place with
    | some bytes => .ok bytes
    | none => .error .folder
  | name :: rest =>
    if (f.files.lookup place).isSome then .error .behindFile
    else if name = "" ∨ name = "." then follow f place rest
    else if name = ".." then
      if place.isEmpty then followAround rest else follow f place.dropLast rest
    else if 255 < name.utf8ByteSize then .error .longName
    else
      let next := place ++ [name]
      if (f.files.lookup next).isSome ∨ f.hasFolder next then follow f next rest
      else .error .missing

/-- The bytes of the file at a path. -/
def read (f : Folder) (path : String) : Except AccessFault (List Nat) :=
  if path.toList.contains '\x00' then .error .null
  else if path = "" then .error .missing
  else if 4095 < path.utf8ByteSize then .error .longName
  else if ['/'].isPrefixOf path.toList then followAround (pathNames path)
  else f.follow [] (pathNames path)

end Folder

end Sangria
