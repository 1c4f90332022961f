import ChipEight.CommandLine.Run

/-!
# The program

Reads the program file and the typed events, runs, and prints what the run reports. After a session
the display is drawn as it was at the end.

Where there is no window system, the events of a session are typed. A line holds the events of
one frame as words: `+A` and `-A` press and release the keypad key A, `pause` and `escape` are the
keys of that meaning, `leave` and `enter` move the focus, and `quit` closes the window. Other words
mean nothing. The display is drawn with one character a cell.
-/

namespace ChipEight.Main

/-! ## Events and display in a terminal -/

/-- A place on the keyboard that stands for a keypad key. -/
def scancode (key : Fin 16) : Option Int :=
  ((List.range 64).map Int.ofNat).find? fun code => Keyboard.binding code = some key

/-- The keypad key named by a hexadecimal digit. -/
def key? (c : Char) : Option (Fin 16) :=
  (List.finRange 16).find? fun k => (Nat.digitChar k).toUpper = c.toUpper

def event? (word : String) : Option Event :=
  match word.toList with
  | ['+', c] => (key? c).map fun k => .down 0 (scancode k)
  | ['-', c] => (key? c).map fun k => .up 0 (scancode k)
  | _ =>
    match word with
    | "pause" => some (.down Keyboard.pauseKey none)
    | "escape" => some (.down Keyboard.escapeKey none)
    | "leave" => some (.focusLost .ascending)
    | "enter" => some .focusGained
    | "quit" => some .quit
    | _ => none

def frame (line : String) : Frame := .ofEvents ((line.splitOn " ").filterMap event?)

/-- The lines of the display. -/
def screen (d : Display) : List String :=
  d.rows.map fun row => String.ofList (row.map fun lit => if lit then '#' else '.')

/-! ## Files and streams -/

/-- What a path leads to. -/
def lookUp (path : String) : IO Found := do
  try
    return .file (← IO.FS.readBinFile path).toList
  catch _ =>
    return .missing

/-- The frames typed until the input ends. -/
partial def readFrames (input : IO.FS.Stream) (frames : Array Frame) : IO (List Frame) := do
  let line ← input.getLine
  if line.isEmpty then
    return frames.toList
  else
    readFrames input (frames.push (frame line.trimAscii.toString))

def print (report : CommandLine.Report) : IO Unit := do
  for line in report.log.map Record.line do
    IO.eprintln line
  for line in report.output do
    IO.println line
  for line in report.errors do
    IO.eprintln line
  if let some played := report.played then
    for line in screen played.session.final.machine.display do
      IO.println line

end ChipEight.Main

open ChipEight in
def main (args : List String) : IO UInt32 := do
  let ownHome ← IO.getEnv "HOME"
  let home (user : String) : Option String := if user = "" then ownHome else none
  let options := (CommandLine.Options.parse args).toOption
  let found ← match options with
    | some o => Main.lookUp (Path.expandHome home o.program)
    | none => pure .missing
  let frames ←
    if found.isFile && options.any fun o => !o.info then
      Main.readFrames (← IO.getStdin) #[]
    else
      pure []
  let seed ← IO.rand 0 0xFFFFFFFF
  let report := CommandLine.run
    { find := fun _ => found, home := home, mixer := .off, output := .utf8, source := .ofSeed seed }
    args (1.0 / 60.0) frames
  Main.print report
  return match report.code with
    | .program code | .arguments code => UInt32.ofNat code
    | .none _ => 1
