/-!
# Random bytes

A machine draws its random bytes from a source that it owns. What a source is stays open; it only
has to give a byte and the source that remains. A machine that is asked for has a source of one of
two kinds: given bytes, or the Mersenne twister.

The generator MT19937 keeps 624 words of 32 bits, which are replaced all together by a linear
recurrence and read out one by one through a tempering function. It is seeded by an integer, whose
magnitude is cut into 32-bit words, the least significant first. A byte is the top of one output
word.
-/

namespace ChipEight

class RandomSource (σ : Type) where
  next : σ → UInt8 × σ

/-- Given bytes in order, over and over; without any, zeros. -/
structure RepeatingBytes where
  bytes : List UInt8
  /-- What is left of the present round. -/
  rest : List UInt8

namespace RepeatingBytes

def ofList (bytes : List UInt8) : RepeatingBytes := ⟨bytes, bytes⟩

def next (s : RepeatingBytes) : UInt8 × RepeatingBytes :=
  match s.rest, s.bytes with
  | b :: rest, _ => (b, ⟨s.bytes, rest⟩)
  | [], b :: rest => (b, ⟨s.bytes, rest⟩)
  | [], [] => (0, s)

instance : RandomSource RepeatingBytes := ⟨next⟩

end RepeatingBytes

/-! ## The Mersenne twister -/

structure Twister where
  words : Vector UInt32 624
  /-- How many of the words have been read. -/
  used : Nat

namespace Twister

/-- Positions are counted round and round. -/
def slot (i : Nat) : Fin 624 := Fin.ofNat 624 i

def word (v : Vector UInt32 624) (i : Nat) : UInt32 := v[slot i]

def setWord (v : Vector UInt32 624) (i : Nat) (w : UInt32) : Vector UInt32 624 := v.set (slot i) w

/-! ### Seeding -/

/-- The word before position `i`, with its high bits folded into the low ones. -/
def folded (v : Vector UInt32 624) (i : Nat) : UInt32 :=
  let w := word v (i - 1)
  w ^^^ (w >>> 30)

/-- Fills the words from one number by a linear congruence. -/
def spread (seed : UInt32) : Vector UInt32 624 :=
  (List.range' 1 623).foldl
    (fun v i => setWord v i (1812433253 * folded v i + UInt32.ofNat i))
    (setWord (Vector.replicate 624 0) 0 seed)

/-- Applies `mix` at `count` positions from `i` on; position 0 is skipped, and on the way past it
takes over the last word. -/
def sweep (mix : Vector UInt32 624 → Nat → Nat → UInt32) :
    (count k i : Nat) → Vector UInt32 624 → Nat × Vector UInt32 624
  | 0, _, i, v => (i, v)
  | count + 1, k, i, v =>
    let v := setWord v i (mix v k i)
    if i + 1 < 624 then
      sweep mix count (k + 1) (i + 1) v
    else
      sweep mix count (k + 1) 1 (setWord v 0 (word v 623))

/-- The words of a magnitude, least significant first; `fuel` bounds their number. -/
def magnitudeWords : (fuel n : Nat) → List UInt32
  | 0, _ => []
  | fuel + 1, n =>
    UInt32.ofNat n :: if n < 2 ^ 32 then [] else magnitudeWords fuel (n / 2 ^ 32)

def ofKey (key : Array UInt32) : Twister :=
  let (i, v) := sweep
    (fun v k i =>
      let j := k % key.size
      (word v i ^^^ (folded v i * 1664525)) + key[j]?.getD 0 + UInt32.ofNat j)
    (max 624 key.size) 0 1 (spread 19650218)
  let (_, v) := sweep
    (fun v _ i => (word v i ^^^ (folded v i * 1566083941)) - UInt32.ofNat i)
    623 0 i v
  ⟨setWord v 0 0x80000000, 624⟩

def ofSeed (seed : Int) : Twister :=
  ofKey (magnitudeWords (seed.natAbs.log2 + 1) seed.natAbs).toArray

/-! ### Output -/

/-- Replaces word `i` by the recurrence. -/
def twistAt (v : Vector UInt32 624) (i : Nat) : Vector UInt32 624 :=
  let y := (word v i &&& 0x80000000) ||| (word v (i + 1) &&& 0x7FFFFFFF)
  let twisted := (y >>> 1) ^^^ (if y &&& 1 = 0 then 0 else 0x9908B0DF)
  setWord v i (word v (i + 397) ^^^ twisted)

def twist (v : Vector UInt32 624) : Vector UInt32 624 := (List.range 624).foldl twistAt v

def temper (y : UInt32) : UInt32 :=
  let y := y ^^^ (y >>> 11)
  let y := y ^^^ ((y <<< 7) &&& 0x9D2C5680)
  let y := y ^^^ ((y <<< 15) &&& 0xEFC60000)
  y ^^^ (y >>> 18)

def nextWord (t : Twister) : UInt32 × Twister :=
  if t.used < 624 then
    (temper (word t.words t.used), { t with used := t.used + 1 })
  else
    let words := twist t.words
    (temper (word words 0), ⟨words, 1⟩)

def next (t : Twister) : UInt8 × Twister :=
  let (w, t) := t.nextWord
  ((w >>> 24).toUInt8, t)

instance : RandomSource Twister := ⟨next⟩

end Twister

/-- The sources that a machine can be asked for: given bytes, or a seeded generator. -/
inductive RandomStream where
  | bytes (s : RepeatingBytes)
  | seeded (t : Twister)

namespace RandomStream

def ofBytes (bytes : List UInt8) : RandomStream := .bytes (.ofList bytes)

def ofSeed (seed : Int) : RandomStream := .seeded (.ofSeed seed)

instance : RandomSource RandomStream where
  next
    | .bytes s => let (b, s) := s.next; (b, .bytes s)
    | .seeded t => let (b, t) := t.next; (b, .seeded t)

end RandomStream

end ChipEight
