/-!
# Numerals

Numbers are written in hexadecimal and read in decimal.

Addresses and instruction words are reported in upper case and filled with zeros to a least
width; a minus sign takes its place within that width. Raw bytes are written in lower case, two
digits each.

An integer that a person typed may have blanks around it, a sign, decimal digits of any script, and
single underscores between digits. Anything else is refused, and so is a numeral of more than 4300
digits.
-/

namespace ChipEight.Text

/-! ## Written -/

/-- The upper-case hexadecimal digits of a number, most significant first. -/
def hexDigits (n : Nat) : List Char := (Nat.toDigits 16 n).map Char.toUpper

/-- Zeros go between the sign and the digits, until both together reach `width`. -/
def zeroFilled (width : Nat) (sign digits : List Char) : List Char :=
  sign ++ List.replicate (width - sign.length - digits.length) '0' ++ digits

/-- A number in upper-case hexadecimal, at least `width` characters wide. -/
def hex (width : Nat) (n : Int) : String :=
  String.ofList (zeroFilled width (if n < 0 then ['-'] else []) (hexDigits n.natAbs))

/-- A number as it is written for an address: `0x` and three or more digits. -/
def address (n : Int) : String := "0x" ++ hex 3 n

/-- The two lower-case digits of a byte. -/
def byteDigits (b : UInt8) : List Char :=
  [Nat.digitChar (b.toNat / 16), Nat.digitChar (b.toNat % 16)]

/-- Bytes in lower case, two digits each, nothing between them. -/
def hexBytes (bytes : List UInt8) : String := String.ofList (bytes.flatMap byteDigits)

/-! ## Read -/

/-- The zeros of the decimal digits of every script; the nine digits after each follow it. -/
def zeros : List Nat := [
  0x30, 0x660, 0x6F0, 0x7C0, 0x966, 0x9E6, 0xA66, 0xAE6, 0xB66, 0xBE6, 0xC66, 0xCE6, 0xD66, 0xDE6,
  0xE50, 0xED0, 0xF20, 0x1040, 0x1090, 0x17E0, 0x1810, 0x1946, 0x19D0, 0x1A80, 0x1A90, 0x1B50,
  0x1BB0, 0x1C40, 0x1C50, 0xA620, 0xA8D0, 0xA900, 0xA9D0, 0xA9F0, 0xAA50, 0xABF0, 0xFF10, 0x104A0,
  0x10D30, 0x11066, 0x110F0, 0x11136, 0x111D0, 0x112F0, 0x11450, 0x114D0, 0x11650, 0x116C0,
  0x11730, 0x118E0, 0x11950, 0x11C50, 0x11D50, 0x11DA0, 0x16A60, 0x16AC0, 0x16B50, 0x1D7CE,
  0x1D7D8, 0x1D7E2, 0x1D7EC, 0x1D7F6, 0x1E140, 0x1E2F0, 0x1E950, 0x1FBF0]

/-- The value of a decimal digit. -/
def digitValue? (c : Char) : Option Nat :=
  (zeros.find? fun z => z ≤ c.toNat ∧ c.toNat < z + 10).map fun z => c.toNat - z

/-- The blanks that may surround a numeral. -/
def isBlank (c : Char) : Bool :=
  let code := c.toNat
  (0x09 ≤ code && code ≤ 0x0D) || code == 0x20 || code == 0x85 || code == 0xA0 || code == 0x1680
    || (0x2000 ≤ code && code ≤ 0x200A) || code == 0x2028 || code == 0x2029 || code == 0x202F
    || code == 0x205F || code == 0x3000

def trimBlanks (s : List Char) : List Char :=
  ((s.dropWhile isBlank).reverse.dropWhile isBlank).reverse

/-- The digits of a numeral without its underscores, each of which has a digit on either side. -/
def digits? : List Char → Option (List Nat)
  | [] => none
  | [c] => (digitValue? c).map fun d => [d]
  | c :: '_' :: rest => do
    let d ← digitValue? c
    return d :: (← digits? rest)
  | c :: rest => do
    let d ← digitValue? c
    return d :: (← digits? rest)

def natural? (s : List Char) : Option Nat := do
  let ds ← digits? s
  if ds.length ≤ 4300 then some (ds.foldl (fun n d => 10 * n + d) 0) else none

/-- The integer that a text denotes. -/
def integer? (s : String) : Option Int :=
  match trimBlanks s.toList with
  | '-' :: rest => (natural? rest).map fun n => -(n : Int)
  | '+' :: rest => (natural? rest).map fun n => (n : Int)
  | rest => (natural? rest).map fun n => (n : Int)

end ChipEight.Text
