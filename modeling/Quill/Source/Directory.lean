import Quill.Source.Read

/-!
# Directories and paths

A directory holds files and directories by name. A path is a list of names with slashes between
them, followed from a directory on: an empty name or a single dot stays where it is, two dots go
back to the directory above, any other name goes down. Only a directory can be gone into, so a
path that goes on after a file, or ends with a slash after one, is a path below a file. Of what
lies above the first directory nothing is known but that it is made of directories.
-/

set_option autoImplicit false

namespace Quill.Source

/-- What is stored under a name. -/
inductive Entry where
  | file (content : ByteArray)
  | directory

/-- The entries of a directory and of those in it, each under the names that lead to it. -/
abbrev Directory := List (List String × Entry)

namespace Directory

/-- A directory with entries given by their paths. -/
def ofPaths (entries : List (String × Entry)) : Directory :=
  entries.map fun entry => ((entry.1.splitOn "/").filter (· ≠ ""), entry.2)

/-- What stands under a list of names. A directory that is not listed itself is there if
something in it is listed. -/
def at? (directory : Directory) (names : List String) : Option Entry :=
  match directory.lookup names with
  | some entry => some entry
  | none =>
    if names.isEmpty || directory.any (fun entry => names.isPrefixOf entry.1) then
      some .directory
    else none

/-- Follows names from a place above the directory. -/
def above (names : List String) : Found :=
  if names.all fun name => name = "" || name = "." || name = ".." then .directory else .nothing

/-- Follows names from the place reached so far, which is given by the names that lead to it. -/
def follow (directory : Directory) (place : List String) : List String → Found
  | [] =>
    match directory.at? place with
    | some (.file content) => .file content
    | some .directory => .directory
    | none => .nothing
  | name :: names =>
    match directory.at? place with
    | some (.file _) => .belowFile
    | some .directory =>
      if name = "" ∨ name = "." then follow directory place names
      else if name = ".." then
        if place.isEmpty then above names else follow directory place.dropLast names
      else follow directory (place ++ [name]) names
    | none => .nothing

/-- What stands under a path. Nothing stands under the empty path, and a path that starts with a
slash leads above the directory. -/
def find (directory : Directory) (path : String) : Found :=
  match path.splitOn "/" with
  | [""] => .nothing
  | "" :: names => above names
  | names => directory.follow [] names

end Directory

end Quill.Source
