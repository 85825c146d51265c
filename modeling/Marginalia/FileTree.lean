/-!
Files and directories as a path finds them.

A tree holds the files below one directory by their names, which may lead through directories below
it.  A path is followed part by part: `.` and empty parts stay, `..` goes up, and nothing leads
through a file, so a slash after the name of a file leads nowhere (`find`).  A path may be tidied
before it is followed: then idle parts are left out and such a slash does no harm (`findTidied`).
What lies outside the tree is not known to exist.
-/

namespace Marginalia

/-- Files by their names, and directories besides those the names lead through. -/
structure FileTree (α : Type) where
  files : List (String × α)
  directories : List String

/-- What a path leads to. -/
inductive Found (α : Type) where
  | file (content : α)
  | directory
  | missing
  deriving DecidableEq, Repr

namespace FileTree

variable {α : Type}

/-- The parts of a path between its slashes. -/
def parts (path : String) : List String := (path.toList.splitOn '/').map String.ofList

/-- The parts of a name that are not idle. -/
def nameParts (name : String) : List String := (parts name).filter fun p => p != "" && p != "."

/-- Whether a path names more than one place.  A dot is a place at the start of a path only. -/
def isNested (path : String) : Bool :=
  1 < (nameParts path).length + (if (parts path).head? = some "." then 1 else 0)

/-- The last part of a path that is not idle, or the whole path if there is none. -/
def baseName (path : String) : String := (nameParts path).getLastD path

/-- The content of the file at a place, given by the parts of its name. -/
def fileAt? (t : FileTree α) (place : List String) : Option α :=
  t.files.findSome? fun (name, content) => if nameParts name = place then some content else none

/-- Whether there is a directory at a place. -/
def isDirectoryAt (t : FileTree α) (place : List String) : Bool :=
  place = []
    || t.directories.any (fun name => nameParts name = place)
    || t.files.any fun (name, _) =>
        place.isPrefixOf (nameParts name) && place.length < (nameParts name).length

/-- Follow the rest of a path from a directory. -/
def follow (t : FileTree α) (place : List String) : List String → Found α
  | [] => .directory
  | part :: rest =>
      if part = "" ∨ part = "." then follow t place rest
      else if part = ".." then
        if place = [] then .missing else follow t place.dropLast rest
      else
        match t.fileAt? (place ++ [part]) with
        | some content => if rest = [] then .file content else .missing
        | none =>
            if t.isDirectoryAt (place ++ [part]) then follow t (place ++ [part]) rest else .missing

/-- What a path leads to from the top of the tree. -/
def find (t : FileTree α) (path : String) : Found α :=
  match parts path with
  | "" :: _ => .missing
  | parts => follow t [] parts

/-- What a path leads to from the top of the tree when it is tidied first. -/
def findTidied (t : FileTree α) (path : String) : Found α :=
  match parts path with
  | "" :: _ => .missing
  | _ => follow t [] (nameParts path)

end FileTree

end Marginalia
