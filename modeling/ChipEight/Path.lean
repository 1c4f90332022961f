import ChipEight.Text.Quoted

/-!
# Paths

The parts of a path name, and what may be found where a path leads. A name is cut at its last dot
into a stem and an extension; dots at its beginning belong to the stem.
-/

namespace ChipEight

namespace Path

/-- The parts of a text between slashes; there is at least one. -/
def components (path : List Char) : List (List Char) :=
  path.foldr
    (fun c parts =>
      match c, parts with
      | '/', _ => [] :: parts
      | _, [] => [[c]]
      | _, part :: rest => (c :: part) :: rest)
    [[]]

/-- What follows the last slash. -/
def baseName (path : String) : String :=
  String.ofList ((components path.toList).getLast?.getD [])

/-- The length of the extension of a name, its dot included; none if the name has no dot after
its first other character. -/
def extensionLength (name : List Char) : Nat :=
  let named := name.dropWhile (· == '.')
  if named.contains '.' then (named.reverse.takeWhile (· != '.')).length + 1 else 0

/-- A file name without its extension. -/
def stem (path : String) : String :=
  let name := (baseName path).toList
  String.ofList (name.take (name.length - extensionLength name))

/-- The extension of a file name with its dot, or nothing. -/
def extension (path : String) : String :=
  let name := (baseName path).toList
  String.ofList (name.drop (name.length - extensionLength name))

/-- The name of the user in whose home directory a path begins: what stands between a tilde and the
first slash. The empty name means oneself. -/
def user? (path : String) : Option String :=
  match path.toList with
  | '~' :: text => some (String.ofList (text.takeWhile (· ≠ '/')))
  | _ => none

/-- Replaces a tilde and the name of a user by the home directory of that user. The path stays as it
is if there is no such directory. -/
def expandHome (home : String → Option String) (path : String) : String :=
  match (user? path).bind home with
  | none => path
  | some home =>
    let root := (home.toList.reverse.dropWhile (· == '/')).reverse
    let expanded := root ++ path.toList.dropWhile (· ≠ '/')
    if expanded = [] then "/" else String.ofList expanded

/-- The longest path that is followed, in bytes. -/
def longest : Nat := 4095

/-- The longest name that a file or directory can have, in bytes. -/
def longestName : Nat := 255

/-- Whether a text may be a path at all: no null character stands in it. -/
def isPath (text : String) : Bool := !text.toList.contains (Char.ofNat 0)

end Path

/-- What is found where a path leads. -/
inductive Found where
  | file (data : List UInt8)
  | directory
  | missing
  /-- The path goes on below a file. -/
  | notDirectory
  /-- The path, or a name in it, is longer than any can be. -/
  | tooLong
  /-- What was given is no path. -/
  | noPath
  deriving DecidableEq, Repr

/-- Why a path cannot be read as a file. -/
inductive FileError where
  | missing (path : String)
  | notDirectory (path : String)
  | directory (path : String)
  | tooLong (path : String)
  | noPath
  deriving DecidableEq, Repr

def FileError.message : FileError → String
  | .missing path => "[Errno 2] No such file or directory: " ++ Text.quoted path
  | .notDirectory path => "[Errno 20] Not a directory: " ++ Text.quoted path
  | .directory path => "[Errno 21] Is a directory: " ++ Text.quoted path
  | .tooLong path => "[Errno 36] File name too long: " ++ Text.quoted path
  | .noPath => "embedded null byte"

namespace Found

/-- The bytes of the file at `path`. -/
def contents (path : String) : Found → Except FileError (List UInt8)
  | .file data => .ok data
  | .directory => .error (.directory path)
  | .missing => .error (.missing path)
  | .notDirectory => .error (.notDirectory path)
  | .tooLong => .error (.tooLong path)
  | .noPath => .error .noPath

def isFile : Found → Bool
  | .file _ => true
  | _ => false

end Found

end ChipEight
