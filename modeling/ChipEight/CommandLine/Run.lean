import ChipEight.CommandLine.Options
import ChipEight.ProgramFile
import ChipEight.Window

/-!
# A run of the program

From the arguments to the exit code. A run either ends before a window is opened, with a message
or with the description of a program, or it plays a session and reports how that ended. Exit code
0 means that nothing went wrong; then nothing is written to the error output but the log.

A few things that a run may come upon are looked after by no part of the program. Then the run breaks
off, and there is no exit code.
-/

namespace ChipEight.CommandLine

/-! ## What the program finds around it -/

/-- How an output writes texts down: which characters it has, and why it has no others. -/
structure Encoding where
  name : String
  has : Char → Bool
  reason : String

namespace Encoding

/-- All characters. -/
def utf8 : Encoding := ⟨"utf-8", fun _ => true, "surrogates not allowed"⟩

def encodes (e : Encoding) (text : String) : Bool := text.toList.all e.has

/-- The first of some lines that the output cannot encode. -/
def strange? (e : Encoding) (lines : List String) : Option String :=
  lines.find? fun line => !e.encodes line

/-- What is wrong with a text: the first of its characters that the output does not have, and those
that follow it at once. -/
def complaint (e : Encoding) (text : String) : String :=
  let start := (text.toList.takeWhile e.has).length
  let strange := (text.toList.drop start).takeWhile fun c => !e.has c
  let what := match strange with
    | [c] => "character '" ++ String.ofList (Text.coded c) ++ "' in position " ++ toString start
    | _ => "characters in position " ++ toString start ++ "-" ++
        toString (start + strange.length - 1)
  "'" ++ e.name ++ "' codec can't encode " ++ what ++ ": " ++ e.reason

end Encoding

/-- The surroundings of a run. Names and arguments are texts in them. The output takes what it can
encode; the error output takes everything, as it writes what it cannot encode by its code. -/
structure Environment where
  find : String → Found
  /-- The home directories of users by their names; the empty name is one's own. -/
  home : String → Option String
  mixer : Mixer
  output : Encoding
  /-- The random source of machines that are not given a seed. -/
  source : RandomStream

/-! ## What a run reports -/

/-- What nothing in the program takes care of. -/
inductive Breakdown where
  /-- The seed was set to nothing. -/
  | noSeed
  /-- A null character stands in the name of a user. -/
  | badUser
  /-- The output does not have a character of the description of a program. -/
  | unencodable (complaint : String)
  deriving DecidableEq, Repr

def Breakdown.message : Breakdown → String
  | .noSeed =>
    "The only supported seed types are: None,\nint, float, str, bytes, and bytearray."
  | .badUser => "embedded null byte"
  | .unencodable complaint => complaint

/-- The exit code: of the program, or of the reading of its arguments. A run may also break off
without one. -/
inductive ExitCode where
  | program (code : Nat)
  | arguments (code : Nat)
  | none (b : Breakdown)
  deriving DecidableEq, Repr

/-- A window as it was opened, and the session that was played in it. -/
structure Played where
  opened : Window RandomStream
  session : Window.Session RandomStream

structure Report where
  code : ExitCode
  output : List String
  errors : List String
  log : List Record
  played : Option Played

/-- The least level that is logged. -/
def logLevel (verbosity : Nat) : Level :=
  match verbosity with
  | 0 => .warning
  | 1 => .info
  | _ => .debug

namespace Report

/-- A run that ends before a window is opened, with a message. -/
def failed (log : List Record) (message : String) : Report := ⟨.program 1, [], [message], log, none⟩

/-- A run that breaks off. -/
def broken (log : List Record) (b : Breakdown) : Report := ⟨.none b, [], [b.message], log, none⟩

/-- A run that prints some lines. It breaks off at the first one that the output cannot encode. -/
def described (output : Encoding) (lines : List String) : Report :=
  match output.strange? lines with
  | none => ⟨.program 0, lines, [], [], none⟩
  | some line =>
    let b := Breakdown.unencodable (output.complaint line)
    ⟨.none b, lines.takeWhile output.encodes, [b.message], [], none⟩

def refused : Exit → Report
  | .help => ⟨.arguments 0, [], [], [], none⟩
  | .usage e => ⟨.arguments 2, [], ["chip8: error: " ++ e.message], [], none⟩

end Report

/-! ## The description of a program -/

/-- A name as it is shown: words with capitals, blanks between them. -/
def shownName (name : String) : String :=
  let capital (before c : Char) := if before.isAlpha then c else c.toUpper
  let spaced := name.toList.map fun c => if c = '_' then ' ' else c
  String.ofList ((spaced.zip (' ' :: spaced)).map fun (c, before) => capital before c)

def descriptionLines (d : ProgramFile.Description) : List String :=
  let rule := String.ofList (List.replicate 40 '=')
  let entry (e : String × String) :=
    let name := shownName e.1
    "  " ++ name ++ String.ofList (List.replicate (20 - name.length) ' ') ++ ": " ++ e.2
  "CHIP-8 Program Information" :: rule :: d.entries.map entry ++ [rule]

/-! ## A session -/

def note (level : Level) (text : String) : Record := ⟨level, .commandLine, text⟩

/-- How a session is reported: its message if it failed, and the last records. -/
def outcome {σ : Type} (session : Window.Session σ) : Option String × List Record :=
  match session.failure with
  | some (.known text) => (some text, [])
  | some (.unknown text) => (some text, [note .error "Fatal error during emulation"])
  | _ =>
    match session.final.fault with
    | some f => (some f.message, [])
    | none => (none, [note .info "Exited cleanly"])

/-- The records that a verbosity keeps. -/
def kept (o : Options) (log : List Record) : List Record :=
  log.filter (Record.isKept (logLevel o.verbosity))

/-- Opens a window on a machine and plays the frames, each `dt` seconds long. That no window opens
counts as an unknown failure. -/
def play (env : Environment) (o : Options) (path : String) (machine : Machine RandomStream)
    (created : List Record) (dt : Float) (frames : List Frame) : Report :=
  let mixer := if o.audio then env.mixer else .off
  let result := Window.create machine o.scale.value? (some (Path.baseName path)) mixer
  let opening := created ++ [note .info "Starting emulation ..."] ++
    Window.openRecords mixer result
  match result with
  | .error e =>
    .failed (kept o (opening ++ [note .error "Fatal error during emulation"]))
      ("Fatal error: " ++ e.message)
  | .ok window =>
    let session := window.run dt frames
    let (failure, last) := outcome session
    let (code, errors) := match failure with
      | some text => (1, ["Fatal error: " ++ text])
      | none => (0, [])
    ⟨.program code, [], errors, kept o (opening ++ window.runRecords dt frames ++ last),
      some ⟨window, session⟩⟩

/-- The speed as it is handed to the machine; one set to nothing is a list of nothing. -/
def speedValue (o : Options) : Value :=
  match o.speed with
  | .value speed => .int speed.perSecond
  | .blank => .list []

/-- Builds a machine from the file at `path` and plays. A seed set to nothing is found out when
the file has been read. -/
def start (env : Environment) (o : Options) (path : String) (found : Found) (dt : Float)
    (frames : List Frame) : Report :=
  let seed := o.seed.bind Setting.value?
  let source := (seed.map RandomStream.ofSeed).getD env.source
  let created := ProgramFile.createRecords path found (speedValue o) seed source
  match ProgramFile.read path found, o.seed with
  | .ok _, some .blank =>
    .broken (kept o (ProgramFile.readRecords path)) .noSeed
  | _, _ =>
    match ProgramFile.create path found (speedValue o) source with
    | .ok machine => play env o path machine created dt frames
    | .error e => .failed (kept o created) ("Error: " ++ e.message)

/-! ## The whole run -/

def runOptions (env : Environment) (o : Options) (dt : Float) (frames : List Frame) : Report :=
  let path := Path.expandHome env.home o.program
  let found := env.find path
  if (Path.user? o.program).any fun user => !Path.isPath user then
    .broken [] .badUser
  else if found.isFile then
    if o.info then
      match ProgramFile.describe path found with
      | .ok d => .described env.output (descriptionLines d)
      | .error e => .failed [] ("Error reading program: " ++ e.message)
    else
      start env o path found dt frames
  else
    .failed [] ("Error: program file not found: " ++ path)

def run (env : Environment) (args : List String) (dt : Float) (frames : List Frame) : Report :=
  match Options.parse args with
  | .ok o => runOptions env o dt frames
  | .error e => .refused e

end ChipEight.CommandLine
