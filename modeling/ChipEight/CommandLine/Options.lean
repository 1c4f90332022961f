import ChipEight.CommandLine.Switch
import ChipEight.Text.Quoted
import ChipEight.Timers

/-!
# Options

What a command line asks for. Its switches take effect from left to right, wherever the program's
path stands among them; a request for help ends the reading at once. Arguments that nobody wants
are reported only when everything else is in order.

Two minus signs written as the value of a switch are taken for the separator and dropped. The switch
is then set, but to nothing, which is not found wrong before the setting is used. Readers of command
lines differ in this; some refuse such a value at once.
-/

namespace ChipEight.CommandLine

/-- What a switch with a value was set to: a value, or nothing. -/
inductive Setting (α : Type) where
  | value (a : α)
  | blank
  deriving DecidableEq, Repr

namespace Setting

def value? {α : Type} : Setting α → Option α
  | .value a => some a
  | .blank => none

end Setting

structure Options where
  program : String
  speed : Setting Speed
  scale : Setting Int
  seed : Option (Setting Int)
  audio : Bool
  info : Bool
  /-- How often more messages were asked for. -/
  verbosity : Nat

/-- What ends the reading of a command line early. -/
inductive Exit where
  | help
  | usage (e : UsageError)
  deriving DecidableEq, Repr

/-- What the values of a switch have to be, in a message. -/
def Switch.valueKind : Switch → String
  | .seed => "int"
  | _ => "_positive_int"

def UsageError.message : UsageError → String
  | .ambiguous arg names =>
    "ambiguous option: " ++ arg ++ " could match " ++ ", ".intercalate names
  | .valueExpected s => "argument " ++ s.label ++ ": expected one argument"
  | .valueIgnored s value =>
    "argument " ++ s.label ++ ": ignored explicit argument " ++ Text.quoted value
  | .notANumber s value =>
    "argument " ++ s.label ++ ": invalid " ++ s.valueKind ++ " value: " ++ Text.quoted value
  | .notPositive s value =>
    "argument " ++ s.label ++ ": must be a positive integer, got " ++ toString value
  | .programMissing => "the following arguments are required: program"
  | .unrecognized args => "unrecognized arguments: " ++ " ".intercalate args

/-! ## Reading -/

/-- What has been read of a command line. -/
structure Draft where
  program : Option String
  speed : Setting Speed
  scale : Setting Int
  seed : Option (Setting Int)
  audio : Bool
  info : Bool
  verbosity : Nat
  /-- Arguments that nobody wants. -/
  extra : List String

namespace Draft

def empty : Draft := ⟨none, .value .default, .value 10, none, true, false, 0, []⟩

def leave (d : Draft) (args : List String) : Draft := { d with extra := d.extra ++ args }

def number (s : Switch) (value : String) : Except Exit Int :=
  match Text.integer? value with
  | some n => .ok n
  | none => .error (.usage (.notANumber s value))

def positive (s : Switch) (value : String) : Except Exit Speed := do
  let n ← number s value
  if h : 0 < n then return ⟨n.toNat, Speed.toNat_pos h⟩ else .error (.usage (.notPositive s n))

def positiveNumber (s : Switch) (value : String) : Except Exit Int :=
  (positive s value).map fun n => n.perSecond

/-- The setting that a value makes, unless the value is a separator. -/
def setting {α : Type} (read : String → Except Exit α) (value : String) :
    Except Exit (Setting α) :=
  if value = "--" then .ok .blank else (read value).map .value

/-- The effect of a switch; a value that it does not take does not matter. -/
def apply (d : Draft) (s : Switch) (value : String) : Except Exit Draft := do
  match s with
  | .help => .error .help
  | .speed => return { d with speed := ← setting (positive s) value }
  | .scale => return { d with scale := ← setting (positiveNumber s) value }
  | .seed => return { d with seed := some (← setting (number s) value) }
  | .noAudio => return { d with audio := false }
  | .info => return { d with info := true }
  | .verbose => return { d with verbosity := d.verbosity + 1 }

/-- The effect of a group; `value` goes to the switch that still needs one. -/
def applyGroup (d : Draft) (g : Group) (value : String) : Except Exit Draft :=
  (g.resolved value).foldlM (fun d (s, v) => d.apply s v) d

/-- Takes an argument as the program's path if there is none yet. The separator beside it belongs
to it then. -/
def take (d : Draft) (arg : String) (asTyped : List String) : Draft :=
  match d.program with
  | none => { d with program := some arg }
  | some _ => d.leave asTyped

/-- Lets the arguments take effect one after the other. -/
def read (d : Draft) : List Token → Except Exit Draft
  | [] => .ok d
  | .plain arg :: .separator :: rest => (d.take arg [arg, "--"]).read rest
  | .plain arg :: rest => (d.take arg [arg]).read rest
  | .separator :: .plain arg :: rest => (d.take arg ["--", arg]).read rest
  | .separator :: rest => (d.leave ["--"]).read rest
  | .unknown arg :: rest => (d.leave [arg]).read rest
  | .switches (.error e) :: _ => .error (.usage e)
  | .switches (.ok g) :: rest =>
    match g.pending with
    | none => do (← d.applyGroup g "").read rest
    | some s =>
      match rest with
      | .plain value :: rest => do (← d.applyGroup g value).read rest
      | _ => .error (.usage (.valueExpected s))

def finish (d : Draft) : Except Exit Options :=
  match d.program, d.extra with
  | none, _ => .error (.usage .programMissing)
  | some program, [] =>
    .ok ⟨program, d.speed, d.scale, d.seed, d.audio, d.info, d.verbosity⟩
  | some _, extra => .error (.usage (.unrecognized extra))

end Draft

/-- The options that a command line asks for. -/
def Options.parse (args : List String) : Except Exit Options := do
  let tokens ← (Token.ofArguments args).mapError .usage
  (← Draft.empty.read tokens).finish

end ChipEight.CommandLine
