import ChipEight.Text.Numeral

/-!
# Switches

What each argument of a command line is, before any of them takes effect: a plain argument, a
separator after which only plain arguments follow, or a switch, possibly with a value attached to
it. Long names may be shortened as long as only one switch begins that way. A short name may have
its value, or further short names, written directly behind it.
-/

namespace ChipEight.CommandLine

inductive Switch where
  | help
  | speed
  | scale
  | seed
  | noAudio
  | info
  | verbose
  deriving DecidableEq, Repr

namespace Switch

/-- Long names and what they stand for, in the order in which they are listed. -/
def longNames : List (String × Switch) := [
  ("--help", .help),
  ("--speed", .speed),
  ("--scale", .scale),
  ("--seed", .seed),
  ("--no-audio", .noAudio),
  ("--info", .info),
  ("--verbose", .verbose)]

def ofShort? : Char → Option Switch
  | 'h' => some .help
  | 's' => some .scale
  | 'v' => some .verbose
  | _ => none

/-- The names of a switch in a message. -/
def label : Switch → String
  | .help => "-h/--help"
  | .speed => "--speed"
  | .scale => "--scale/-s"
  | .seed => "--seed"
  | .noAudio => "--no-audio"
  | .info => "--info"
  | .verbose => "--verbose/-v"

def takesValue : Switch → Bool
  | .speed | .scale | .seed => true
  | _ => false

end Switch

/-- Why a command line is refused. -/
inductive UsageError where
  | ambiguous (arg : String) (names : List String)
  | valueExpected (s : Switch)
  | valueIgnored (s : Switch) (value : String)
  /-- A value of a switch that is no number at all. -/
  | notANumber (s : Switch) (value : String)
  | notPositive (s : Switch) (value : Int)
  | programMissing
  | unrecognized (args : List String)
  deriving DecidableEq, Repr

/-! ## The switches in one argument -/

/-- Switches in the order in which they take effect, with the values written for them. Only the
last can be one that still needs its value from the next argument. -/
abbrev Group := List (Switch × Option String)

namespace Group

/-- A short switch and the text directly behind it: its value, or further short switches. -/
def ofShort (s : Switch) (text : List Char) : Except UsageError Group :=
  if s.takesValue then
    .ok [(s, some (String.ofList text))]
  else
    match text with
    | [] => .error (.valueIgnored s "")
    | c :: rest =>
      match Switch.ofShort? c with
      | none => .error (.valueIgnored s (String.ofList (c :: rest)))
      | some s' =>
        if rest.isEmpty then .ok [(s, none), (s', none)]
        else (ofShort s' rest).map ((s, none) :: ·)

def ofLong (s : Switch) (value : Option String) : Except UsageError Group :=
  match value with
  | none => .ok [(s, none)]
  | some v => if s.takesValue then .ok [(s, some v)] else .error (.valueIgnored s v)

/-- The switch that still needs a value. -/
def pending (g : Group) : Option Switch :=
  match g.getLast? with
  | some (s, none) => if s.takesValue then some s else none
  | _ => none

/-- The switches with their values; the pending one is given `value`. -/
def resolved (g : Group) (value : String) : List (Switch × String) :=
  g.map fun (s, v) => (s, v.getD value)

end Group

/-! ## Arguments -/

inductive Token where
  | plain (arg : String)
  | separator
  /-- One or more switches. If they are written wrongly, that is reported when their turn comes. -/
  | switches (group : Except UsageError Group)
  | unknown (arg : String)

namespace Token

/-- A text before its first equals sign, and after it if there is one. -/
def splitEquals (cs : List Char) : List Char × Option (List Char) :=
  match cs.dropWhile (· != '=') with
  | [] => (cs, none)
  | _ :: value => (cs.takeWhile (· != '='), some value)

def isDigit (c : Char) : Bool := (Text.digitValue? c).isSome

/-- A text without the line break that ends it, if one does. -/
def withoutLineBreak (cs : List Char) : List Char :=
  if cs.getLast? = some '\n' then cs.dropLast else cs

/-- A minus sign and a decimal number, with digits on at least the right of a point. A line break
may follow. -/
def isNegativeNumber : List Char → Bool
  | '-' :: line =>
    let cs := withoutLineBreak line
    match cs.dropWhile isDigit with
    | [] => !cs.isEmpty
    | '.' :: places => !places.isEmpty && places.all isDigit
    | _ => false
  | _ => false

/-- What looks like a switch and is none: a negative number or a text with a blank in it is a plain
argument. -/
def otherwise (arg : String) : Token :=
  if isNegativeNumber arg.toList ∨ ' ' ∈ arg.toList then .plain arg else .unknown arg

/-- The switches whose long names begin with the given text. -/
def abbreviated (name : List Char) : List (String × Switch) :=
  Switch.longNames.filter fun entry => name.isPrefixOf entry.1.toList

/-- An argument that begins with two minus signs. -/
def ofLong (arg : String) : Except UsageError Token :=
  let (name, value) := splitEquals arg.toList
  let token (s : Switch) := Token.switches (Group.ofLong s (value.map String.ofList))
  match Switch.longNames.lookup (String.ofList name), abbreviated name with
  | some s, _ => .ok (token s)
  | none, [] => .ok (otherwise arg)
  | none, [(_, s)] => .ok (token s)
  | none, entries => .error (.ambiguous arg (entries.map Prod.fst))

/-- An argument that begins with one minus sign and a letter. -/
def ofShort (arg : String) (letter : Char) (rest : List Char) : Token :=
  match Switch.ofShort? letter, rest with
  | none, _ => otherwise arg
  | some s, [] => .switches (.ok [(s, none)])
  | some s, '=' :: value => .switches (Group.ofShort s value)
  | some s, text => .switches (Group.ofShort s text)

/-- What an argument is, if no separator came before it. -/
def ofArgument (arg : String) : Except UsageError Token :=
  match arg.toList with
  | ['-', '-'] => .ok .separator
  | '-' :: '-' :: _ => ofLong arg
  | '-' :: letter :: rest => .ok (ofShort arg letter rest)
  | _ => .ok (.plain arg)

/-- What each argument is; after a separator all are plain. -/
def ofArguments : List String → Except UsageError (List Token)
  | [] => .ok []
  | arg :: args => do
    match ← ofArgument arg with
    | .separator => return .separator :: args.map .plain
    | token => return token :: (← ofArguments args)

end Token

end ChipEight.CommandLine
