/-!
# Log records

What the parts of the program tell an operator while they work. Records are computed beside the
operations they are about, never by them, so keeping a log changes no result.
-/

namespace ChipEight

inductive Level where
  | debug
  | info
  | warning
  | error
  deriving DecidableEq, Repr

/-- The part of the program that a record comes from. -/
inductive Channel where
  | machine
  | processor
  | loading
  | picture
  | buzzer
  | keyboard
  | window
  | commandLine
  deriving DecidableEq, Repr

structure Record where
  level : Level
  channel : Channel
  text : String
  deriving DecidableEq, Repr

namespace Level

def name : Level → String
  | .debug => "DEBUG"
  | .info => "INFO"
  | .warning => "WARNING"
  | .error => "ERROR"

def rank : Level → Nat
  | .debug => 0
  | .info => 1
  | .warning => 2
  | .error => 3

end Level

def Channel.name : Channel → String
  | .machine => "chip8.core.machine"
  | .processor => "chip8.core.cpu"
  | .loading => "chip8.shell.services.machine_factory"
  | .picture => "chip8.shell.frame_renderer"
  | .buzzer => "chip8.platform.audio"
  | .keyboard => "chip8.platform.input_handler"
  | .window => "chip8.platform.window"
  | .commandLine => "chip8.main"

namespace Record

def line (r : Record) : String :=
  "[" ++ r.level.name ++ "] " ++ r.channel.name ++ ": " ++ r.text

/-- Whether a record is kept by a log that starts at `level`. -/
def isKept (level : Level) (r : Record) : Bool := level.rank ≤ r.level.rank

/-- The lines of the records at or above a level. -/
def lines (level : Level) (records : List Record) : List String :=
  (records.filter (isKept level)).map line

end Record

end ChipEight
