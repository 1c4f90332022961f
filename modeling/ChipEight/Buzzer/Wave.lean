import ChipEight.Decimal

/-!
# The square wave

The tone of the buzzer as signed 16-bit samples: a whole number of periods, about a tenth of a
second long, so that it can be repeated without a seam. The first half of each period is high, the
second low. All arithmetic is that of doubles, in the order in which it is written here.

A frequency near zero or a very high sample rate asks for more samples than there can be. All
numbers of samples and channels have to be 64-bit numbers; the samples are worked out in numbers of
eight bytes each and kept in two. How many of them there is memory for is up to the computer.
-/

namespace ChipEight

structure Wave where
  samples : List Int
  channels : Int

inductive WaveError where
  | divisionByZero
  /-- A number that the wave depends on is beyond the range of doubles. -/
  | outOfRange
  /-- There would be infinitely many samples. -/
  | infinite
  /-- The frequency is not a number. -/
  | undefined
  /-- The number of samples is no 64-bit number. -/
  | tooManySamples
  /-- The number of bytes is no 64-bit number. -/
  | tooManyBytes
  /-- The number of channels is no 64-bit number. -/
  | tooManyChannels
  /-- There is no memory for samples of this shape and width in bytes. -/
  | outOfMemory (shape : List Nat) (width : Nat)
  deriving DecidableEq, Repr

namespace WaveError

/-- The number of bytes that samples of a shape and width take up. -/
def bytes (shape : List Nat) (width : Nat) : Nat := shape.foldl (· * ·) width

/-- A shape in brackets; a comma follows the number if it is the only one. -/
def shapeText : List Nat → String
  | [n] => "(" ++ toString n ++ ",)"
  | shape => "(" ++ ", ".intercalate (shape.map toString) ++ ")"

def message : WaveError → String
  | .divisionByZero => "float division by zero"
  | .outOfRange => "int too large to convert to float"
  | .infinite => "cannot convert float infinity to integer"
  | .undefined => "cannot convert float NaN to integer"
  | .tooManySamples => "Maximum allowed size exceeded"
  | .tooManyBytes =>
    "array is too big; `arr.size * arr.dtype.itemsize` is larger than the maximum possible size."
  | .tooManyChannels => "Python int too large to convert to C long"
  | .outOfMemory shape width =>
    "Unable to allocate " ++ Decimal.byteSize (bytes shape width) ++ " for an array with shape " ++
      shapeText shape ++ " and data type int" ++ toString (8 * width)

end WaveError

/-- The memory that there is for a wave, in bytes. -/
structure Room where
  /-- For the numbers from which the samples are worked out. -/
  working : Nat
  /-- For the samples of all channels. -/
  result : Nat
  deriving DecidableEq, Repr

namespace Wave

def toneHz : Float := 440.0

def toneVolume : Float := 0.05

def standardRate : Int := 44100

/-- The part of a number after the point. -/
def fraction (x : Float) : Float := x - x.floor

/-- The height of the wave at a volume between 0 and 1. -/
def amplitude (volume : Float) : Int :=
  let capped := if volume < 1.0 then volume else 1.0
  Decimal.truncated (32767.0 * (if 0.0 < capped then capped else 0.0))

/-- The nearest whole number, if there is one. -/
def whole (x : Float) : Except WaveError Int :=
  match Decimal.Binary.ofFloat x with
  | .finite .. => .ok (Decimal.nearest x)
  | .infinite _ => .error .infinite
  | .undefined => .error .undefined

/-- How many samples are needed for whole periods. The number is negative if just one of frequency
and rate is. -/
def sampleCount (frequency rate : Float) : Except WaveError Int := do
  let period := rate / frequency
  let periods := max 1 (← whole (0.1 * frequency))
  whole (period * Float.ofInt periods)

/-- Refuses samples for which there is no memory. Samples of which there are none need no memory,
but their number in the other directions is still counted. -/
def checkMemory (limit : Nat) (shape : List Nat) (width : Nat) : Except WaveError Unit :=
  if 0x8000000000000000 ≤ WaveError.bytes (shape.filter (· ≠ 0)) width then .error .tooManyBytes
  else if limit < WaveError.bytes shape width then .error (.outOfMemory shape width)
  else .ok ()

/-- The number of samples, none if it is negative. Just beyond the 64-bit numbers, `2 ^ 63` is let
through and comes out as the least of them. -/
def counted (n : Int) : Except WaveError Nat :=
  if n < -0x8000000000000000 ∨ 0x8000000000000000 < n then .error .tooManySamples
  else .ok (Int64.ofInt n).toInt.toNat

/-- The number of samples in each channel, if all of them can be made. -/
def length (room : Room) (frequency rate : Float) (channels : Int) : Except WaveError Nat := do
  let n ← counted (← sampleCount frequency rate)
  checkMemory room.working [n] 8
  if 1 < channels then
    if 0x8000000000000000 ≤ channels then
      throw .tooManyChannels
    checkMemory room.result [n, channels.toNat] 2
  return n

def square (room : Room) (frequency : Float) (sampleRate : Int) (volume : Float)
    (channels : Int) : Except WaveError Wave := do
  let rate := Float.ofInt sampleRate
  if rate.isInf then
    throw .outOfRange
  if frequency == 0.0 then
    throw .divisionByZero
  let high := amplitude volume
  let sample (i : Nat) : Int :=
    if fraction (Float.ofNat i * frequency / rate) < 0.5 then high else -high
  return ⟨(List.range (← length room frequency rate channels)).map sample, channels⟩

/-- The number of samples, and of channels if there are several. -/
def shape (w : Wave) : List Nat :=
  if 1 < w.channels then [w.samples.length, w.channels.toNat] else [w.samples.length]

/-- The largest sample; an empty wave has none. -/
def peak (w : Wave) : Option Int := w.samples.max?

end Wave

end ChipEight
