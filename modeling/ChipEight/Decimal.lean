/-!
# Decimals

How a floating-point number is written and rounded. A finite double is a sign and a product of a
natural number and a power of two; in this form all of it is computed, by exact arithmetic.
-/

namespace ChipEight.Decimal

/-! ## What a double stands for -/

inductive Binary where
  /-- `mantissa · 2 ^ (exponent - 1074)`, negated if the sign is set. -/
  | finite (negative : Bool) (mantissa exponent : Nat)
  | infinite (negative : Bool)
  | undefined
  deriving DecidableEq, Repr

/-- The number that the 64 bits of a double denote. -/
def Binary.ofBits (bits : UInt64) : Binary :=
  let n := bits.toNat
  let negative := n.testBit 63
  let biased := n / 0x10000000000000 % 0x800
  let fraction := n % 0x10000000000000
  if biased = 2047 then
    if fraction = 0 then .infinite negative else .undefined
  else if biased = 0 then
    .finite negative fraction 0
  else
    .finite negative (0x10000000000000 + fraction) (biased - 1)

def Binary.ofFloat (x : Float) : Binary := .ofBits x.toBits

/-- The sign of a negative number. -/
def sign (negative : Bool) : String := if negative then "-" else ""

/-! ## A fixed number of decimal places

The exact value, rounded to the nearest multiple of `10 ^ -places`; of two that are equally near,
the one whose last digit is even. -/

/-- The quotient rounded to the nearest integer, a half to the even one. -/
def roundHalfEven (num den : Nat) : Nat :=
  let q := num / den
  let twice := 2 * (num % den)
  if twice < den || (twice == den && q % 2 == 0) then q else q + 1

/-- A number of `10 ^ -places` with its point in place. -/
def pointed (places n : Nat) : String :=
  let digits := Nat.toDigits 10 n
  let filled := List.replicate (places + 1 - digits.length) '0' ++ digits
  let whole := filled.take (filled.length - places)
  String.ofList (if places = 0 then whole else whole ++ '.' :: filled.drop (filled.length - places))

/-- `x` with the given number of decimal places. -/
def fixedText (places : Nat) (x : Float) : String :=
  match Binary.ofFloat x with
  | .undefined => "nan"
  | .infinite negative => sign negative ++ "inf"
  | .finite negative mantissa exponent =>
    let scaled := mantissa * Nat.pow 2 exponent * Nat.pow 10 places
    sign negative ++ pointed places (roundHalfEven scaled (Nat.pow 2 1074))

/-! ## Whole numbers

No large number is distorted on the way, as the exact value is rounded. -/

/-- The sign of `negative` on a magnitude. -/
def signed (negative : Bool) (n : Nat) : Int := if negative then -(n : Int) else n

/-- The nearest whole number, the even one of two. What is not a number or infinite gives 0. -/
def nearest (x : Float) : Int :=
  match Binary.ofFloat x with
  | .finite negative mantissa exponent =>
    signed negative (roundHalfEven (mantissa * Nat.pow 2 exponent) (Nat.pow 2 1074))
  | _ => 0

/-- The whole part. -/
def truncated (x : Float) : Int :=
  match Binary.ofFloat x with
  | .finite negative mantissa exponent =>
    signed negative (mantissa * Nat.pow 2 exponent / Nat.pow 2 1074)
  | _ => 0

/-! ## The shortest decimal that reads back

A double is written with the fewest significant digits that still round to it, and among those
with the digits nearest to its value. The search runs over decimal grids, coarsest first: on each
only the two neighbours of the value can lie in the interval of numbers that round to it.

All lengths are measured in one unit, `2 ^ -1076 · 10 ^ -400`, in which the value, the ends of its
interval and the steps of all grids are whole. -/

/-- A decimal: `digits · 10 ^ exponent`. -/
structure Scientific where
  digits : Nat
  exponent : Int
  deriving DecidableEq, Repr

/-- `2 ^ -1076` in units. -/
def quarterUlp : Nat := Nat.pow 10 400

/-- `mantissa · 2 ^ (exponent - 1074)` in units. -/
def units (mantissa exponent : Nat) : Nat := 4 * mantissa * Nat.pow 2 exponent * quarterUlp

/-- The numbers, in units, that round to a given double. Below a power of two the doubles lie closer
together; the ends round to the double itself if its mantissa is even. -/
def roundsTo (mantissa exponent n : Nat) : Bool :=
  let value := units mantissa exponent
  let halfGap := 2 * Nat.pow 2 exponent * quarterUlp
  let halfGapBelow :=
    if mantissa = 0x10000000000000 ∧ 0 < exponent then Nat.pow 2 exponent * quarterUlp else halfGap
  let low := value - halfGapBelow
  let high := value + halfGap
  if mantissa % 2 = 0 then low ≤ n && n ≤ high else low < n && n < high

/-- `10 ^ e` in units, for `e ≥ -400`. -/
def powerOfTen (e : Int) : Nat := Nat.pow 10 (400 + e).toNat * Nat.pow 2 1076

/-- The exponent of the leading digit of a positive number of units. -/
def leadingExponent (n : Nat) : Int := (Nat.toDigits 10 (n / Nat.pow 2 1076)).length - 401

/-- The best decimal on the grid of step `10 ^ e`, if one rounds to the double. -/
def onGrid? (mantissa exponent : Nat) (e : Int) : Option Scientific :=
  let step := powerOfTen e
  let value := units mantissa exponent
  let below := value / step
  let lowHit := roundsTo mantissa exponent (below * step)
  let highHit := roundsTo mantissa exponent ((below + 1) * step)
  match lowHit, highHit with
  | true, true =>
    let up := (below + 1) * step - value
    let down := value - below * step
    if down < up || (down == up && below % 2 == 0) then some ⟨below, e⟩ else some ⟨below + 1, e⟩
  | true, false => some ⟨below, e⟩
  | false, true => some ⟨below + 1, e⟩
  | false, false => none

/-- The shortest decimal of a positive double. Seventeen digits always suffice. -/
def shortest (mantissa exponent : Nat) : Scientific :=
  let lead := leadingExponent (units mantissa exponent)
  let found := (List.range 17).findSome? fun (places : Nat) =>
    onGrid? mantissa exponent (lead - places)
  found.getD ⟨0, 0⟩

/-! It is written positionally from `0.0001` up to below `10 ^ 16`, with a point and at least one
digit after it; else with one digit before the point and an exponent of at least two digits. -/

/-- The digits of a decimal in positional form; the point stands after `point` digits. -/
def positional (digits : List Char) (point : Int) : List Char :=
  if point ≤ 0 then
    '0' :: '.' :: (List.replicate (-point).toNat '0' ++ digits)
  else if digits.length ≤ point.toNat then
    digits ++ List.replicate (point.toNat - digits.length) '0' ++ ['.', '0']
  else
    digits.take point.toNat ++ '.' :: digits.drop point.toNat

/-- The digits of a decimal with an exponent. -/
def exponential (digits : List Char) (lead : Int) : List Char :=
  let fraction := match digits.drop 1 with
    | [] => []
    | rest => '.' :: rest
  let power := (toString lead.natAbs).toList
  digits.take 1 ++ fraction ++ 'e' :: (if lead < 0 then '-' else '+') ::
    (List.replicate (2 - power.length) '0' ++ power)

/-- The text of a positive decimal whose last digits may be zeros. -/
def Scientific.text (d : Scientific) : String :=
  let all := (toString d.digits).toList
  let digits := (all.reverse.dropWhile (· == '0')).reverse
  let lead := d.exponent + all.length - 1
  String.ofList (if -4 ≤ lead && lead < 16 then positional digits (lead + 1)
    else exponential digits lead)

/-- The shortest text that reads back as `x`. -/
def shortestText (x : Float) : String :=
  match Binary.ofFloat x with
  | .undefined => "nan"
  | .infinite negative => sign negative ++ "inf"
  | .finite negative 0 _ => sign negative ++ "0.0"
  | .finite negative mantissa exponent => sign negative ++ (shortest mantissa exponent).text

/-! ## Amounts of memory

As a person reads them: in the largest binary unit of which there is at least one, with three
significant digits and always with a point. Single bytes are counted exactly. -/

/-- Each unit is 1024 of the one before. -/
def binaryUnits : List String := ["bytes", "KiB", "MiB", "GiB", "TiB", "PiB", "EiB"]

/-- Three significant digits of a number that is at least 1, more if the whole part has more. -/
def threeDigits (x : Float) : String :=
  let hundredths := fixedText 2 x
  let tenths := fixedText 1 x
  if hundredths.length = 4 then hundredths
  else if tenths.length = 4 then tenths
  else fixedText 0 x ++ "."

def byteSize (n : Nat) : String :=
  let unit := n.log2 / 10
  let amount := Float.ofNat n / Float.ofNat (Nat.pow 1024 unit)
  if unit = 0 then
    toString n ++ " bytes"
  else if fixedText 0 amount = "1024" then
    threeDigits (amount / 1024.0) ++ " " ++ binaryUnits.getD (unit + 1) ""
  else
    threeDigits amount ++ " " ++ binaryUnits.getD unit ""

end ChipEight.Decimal
