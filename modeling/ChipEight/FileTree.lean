import ChipEight.Path

/-!
# File trees

The files and directories below one working directory, and where a path leads from there. A path
is followed part by part, and every part but the last has to be a directory. Of what lies outside
the tree only the directories on the way are known.

A tree is made by writing files one after the other, each under a path that is followed in the same
way; directories that are not there yet are made on the way.
-/

namespace ChipEight

/-- Files with their bytes and directories, each under the names that lead to it. -/
structure FileTree where
  entries : List (List String × Option (List UInt8))

namespace FileTree

def names (path : String) : List String := (Path.components path.toList).map String.ofList

/-- Where one part of a path leads from the directory `here`. -/
def advance (here : List String) (part : String) : List String :=
  if part = "" ∨ part = "." then here
  else if part = ".." then here.dropLast
  else here ++ [part]

/-- What is written for one path: the directories on the way to it, and in the end the data, or
nothing more if the path ends in a slash. -/
def written (data : List UInt8) (here : List String) :
    List String → List (List String × Option (List UInt8))
  | [] => []
  | [part] => if part = "" then [] else [(advance here part, some data)]
  | part :: rest => (advance here part, none) :: written data (advance here part) rest

/-- The tree that comes of writing the given paths in order. -/
def ofList (files : List (String × List UInt8)) : FileTree :=
  ⟨(files.flatMap fun (path, data) => written data [] (names path)).reverse⟩

/-- What lies under the given names; of several entries the latest counts. -/
def at? (t : FileTree) (here : List String) : Found :=
  match t.entries.find? fun entry => entry.1 = here with
  | some (_, some data) => .file data
  | some (_, none) => .directory
  | none => if here = [] then .directory else .missing

/-- Follows the parts of a path from `here`, or from outside the tree. -/
def walk (t : FileTree) (here : Option (List String)) : List String → Found
  | [] =>
    match here with
    | some here => t.at? here
    | none => .directory
  | part :: rest =>
    match here with
    | none =>
      if part = "" ∨ part = "." ∨ part = ".." then t.walk none rest
      else if Path.longestName < part.utf8ByteSize then .tooLong
      else .missing
    | some here =>
      match t.at? here with
      | .directory =>
        if Path.longestName < part.utf8ByteSize then .tooLong
        else if part = ".." ∧ here = [] then t.walk none rest
        else t.walk (some (advance here part)) rest
      | .file _ => .notDirectory
      | other => other

/-- What a path leads to. -/
def find (t : FileTree) (path : String) : Found :=
  if !Path.isPath path then .noPath
  else if path = "" then .missing
  else if Path.longest < path.utf8ByteSize then .tooLong
  else if path.toList.head? = some '/' then t.walk none (names path)
  else t.walk (some []) (names path)

end FileTree

end ChipEight
