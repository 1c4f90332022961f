import ChipEight.Digest
import ChipEight.Machine.Host
import ChipEight.Path

/-!
# Program files

A program file is nothing but the bytes of the program. It is refused when it is empty or too
large; reading it, describing it and building a machine from it agree on that, because all of them
begin by reading.
-/

namespace ChipEight

/-- Why no machine comes of a program file. -/
inductive LoadError where
  | file (e : FileError)
  | empty (path : String)
  | setup (e : SetupError)

def LoadError.message : LoadError → String
  | .file e => e.message
  | .empty path => "program file is empty: " ++ path
  | .setup e => e.message

namespace ProgramFile

/-- The customary extensions. -/
def extensions : List String := [".ch8", ".c8", ".rom", ".bin"]

def hasKnownExtension (path : String) : Bool :=
  let lower := String.ofList ((Path.extension path).toList.map Char.toLower)
  extensions.contains lower

/-- The bytes of a program file. -/
def read (path : String) (found : Found) : Except LoadError (List UInt8) := do
  let data ← (found.contents path).mapError .file
  if data = [] then
    .error (.empty path)
  else if Program.limit < data.length then
    .error (.setup (.tooLarge data.length))
  else
    .ok data

/-! ## Describing a file -/

structure Description where
  title : String
  size : Nat
  /-- The first and the last address that the program takes up. -/
  first : Nat
  last : Nat
  /-- How many bytes are free above it. -/
  free : Nat
  odd : Bool
  digest : List UInt8
  deriving DecidableEq, Repr

def describe (path : String) (found : Found) : Except LoadError Description := do
  let data ← read path found
  return {
    title := Path.stem path
    size := data.length
    first := Program.start
    last := Program.start + data.length - 1
    free := Program.limit - data.length
    odd := data.length % 2 = 1
    digest := Digest.sha1 data }

namespace Description

/-- The parts of a description under their names, as text. -/
def entries (d : Description) : List (String × String) := [
  ("title", d.title),
  ("size", toString d.size ++ " bytes"),
  ("load_range", Text.address d.first ++ "-" ++ Text.address d.last),
  ("free", toString d.free ++ " bytes"),
  ("odd_length", if d.odd then "yes" else "no"),
  ("sha1", Text.hexBytes d.digest)]

end Description

/-! ## Building a machine -/

variable {σ : Type}

/-- A machine with the program of a file. -/
def create (path : String) (found : Found) (speed : Value) (source : σ) :
    Except LoadError (Machine σ) := do
  let data ← read path found
  (Machine.build (.bytes data) speed source).mapError .setup

/-- The records that are written before a file is read. -/
def readRecords (path : String) : List Record :=
  let unusual :=
    if hasKnownExtension path then []
    else [⟨.warning, .loading, "Unusual extension for a CHIP-8 program: " ++ path⟩]
  ⟨.info, .loading, "Loading program: " ++ path⟩ :: unusual

/-- The records of building it; each is written when what it is about has succeeded. -/
def createRecords (path : String) (found : Found) (speed : Value) (seed : Option Int)
    (source : σ) : List Record :=
  let seeded := match seed with
    | some n => [⟨.info, .loading, "Random seed: " ++ toString n⟩]
    | none => []
  let built := match create path found speed source with
    | .ok m => [m.builtRecord,
        ⟨.info, .loading, "Program size: " ++ toString m.program.size ++ " bytes"⟩,
        ⟨.info, .loading, "Machine created: " ++ m.summary⟩]
    | .error _ => []
  match read path found with
  | .ok _ => readRecords path ++ seeded ++ built
  | .error _ => readRecords path

end ProgramFile

end ChipEight
