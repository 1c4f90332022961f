import ChipEight.Decimal
import ChipEight.Memory
import ChipEight.Text.Quoted
import ChipEight.Timers

/-!
# Programs and speeds

What a machine is built from, and why it may be refused. The program is looked at before the
speed, so of two mistakes the one in the program is reported.

Whoever builds a machine may hand it anything where it expects a program or a speed. A `Value` is
what was handed over; refusing it means naming its kind or writing it out.
-/

namespace ChipEight

/-! ## Values from outside -/

inductive Value where
  | null
  | bool (b : Bool)
  | int (n : Int)
  | float (x : Float)
  | text (s : String)
  | list (items : List Value)
  | table (entries : List (String × Value))

namespace Value

def kind : Value → String
  | .null => "NoneType"
  | .bool _ => "bool"
  | .int _ => "int"
  | .float _ => "float"
  | .text _ => "str"
  | .list _ => "list"
  | .table _ => "dict"

mutual

/-- The written form of a value. -/
def written : Value → String
  | .null => "None"
  | .bool true => "True"
  | .bool false => "False"
  | .int n => toString n
  | .float x => Decimal.shortestText x
  | .text s => Text.quoted s
  | .list items => "[" ++ ", ".intercalate (writtenItems items) ++ "]"
  | .table entries => "\x7b" ++ ", ".intercalate (writtenEntries entries) ++ "\x7d"

def writtenItems : List Value → List String
  | [] => []
  | v :: vs => v.written :: writtenItems vs

def writtenEntries : List (String × Value) → List String
  | [] => []
  | (key, v) :: rest => (Text.quoted key ++ ": " ++ v.written) :: writtenEntries rest

end

end Value

/-! ## Programs -/

/-- Where programs are loaded, and where they start. -/
def Program.start : Nat := 0x200

/-- The size of the largest program: what lies between its start and the end of memory. -/
def Program.limit : Nat := Memory.size - Program.start

structure Program where
  bytes : List UInt8
  fits : bytes.length ≤ Program.limit

/-- What is handed over as a program: bytes, or something else. -/
inductive Image where
  | bytes (data : List UInt8)
  | value (v : Value)

inductive SetupError where
  | notBytes (v : Value)
  | tooLarge (size : Nat)
  | speed (v : Value)

namespace Program

def size (p : Program) : Nat := p.bytes.length

def ofBytes (data : List UInt8) : Except SetupError Program :=
  if h : data.length ≤ limit then .ok ⟨data, h⟩ else .error (.tooLarge data.length)

def ofImage : Image → Except SetupError Program
  | .bytes data => ofBytes data
  | .value v => .error (.notBytes v)

end Program

def SetupError.message : SetupError → String
  | .notBytes v => "memoryview: a bytes-like object is required, not '" ++ v.kind ++ "'"
  | .tooLarge size =>
    "program too large: " ++ toString size ++ " bytes (limit " ++ toString Program.limit ++ " bytes)"
  | .speed v => "speed must be a positive integer, got " ++ v.written

/-! ## Speeds -/

/-- Only a positive whole number is a speed. -/
def Speed.ofValue (v : Value) : Except SetupError Speed :=
  match v with
  | .int n => if h : 0 < n then .ok ⟨n.toNat, Speed.toNat_pos h⟩ else .error (.speed v)
  | _ => .error (.speed v)

end ChipEight
