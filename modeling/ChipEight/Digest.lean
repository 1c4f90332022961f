import ChipEight.Text.Numeral

/-!
# SHA-1

The 160-bit digest of a list of bytes: the message is padded to blocks of 64 bytes that end with
its length in bits, and five words are stirred by eighty rounds for each block.
-/

namespace ChipEight.Digest

structure Words where
  a : UInt32
  b : UInt32
  c : UInt32
  d : UInt32
  e : UInt32

def initial : Words := ⟨0x67452301, 0xEFCDAB89, 0x98BADCFE, 0x10325476, 0xC3D2E1F0⟩

def rotateLeft (w n : UInt32) : UInt32 := (w <<< n) ||| (w >>> (32 - n))

/-- The bytes of a number, most significant first. -/
def bigEndian (count n : Nat) : List UInt8 :=
  (List.range count).map fun i => UInt8.ofNat (n >>> (8 * (count - 1 - i)))

/-- The message, a one bit, zeros, and the length of the message in bits. -/
def padded (message : List UInt8) : List UInt8 :=
  let length := message.length
  message ++ 0x80 :: (List.replicate ((119 - length % 64) % 64) 0 ++ bigEndian 8 (8 * length))

def wordsOf : List UInt8 → List UInt32
  | a :: b :: c :: d :: rest =>
    (a.toUInt32 <<< 24 ||| b.toUInt32 <<< 16 ||| c.toUInt32 <<< 8 ||| d.toUInt32) :: wordsOf rest
  | _ => []

/-- Adds one word, the latest first, to a schedule that holds at least sixteen. -/
def extend (schedule : List UInt32) : List UInt32 :=
  let back (n : Nat) := schedule[n - 1]?.getD 0
  rotateLeft (back 3 ^^^ back 8 ^^^ back 14 ^^^ back 16) 1 :: schedule

/-- The eighty words of a block, in order. -/
def schedule (block : List UInt32) : List UInt32 :=
  ((List.range 64).foldl (fun s _ => extend s) block.reverse).reverse

/-- The constant and the mixing function of a round. -/
def round (i : Nat) (b c d : UInt32) : UInt32 :=
  if i < 20 then ((b &&& c) ||| (~~~b &&& d)) + 0x5A827999
  else if i < 40 then (b ^^^ c ^^^ d) + 0x6ED9EBA1
  else if i < 60 then ((b &&& c) ||| (b &&& d) ||| (c &&& d)) + 0x8F1BBCDC
  else (b ^^^ c ^^^ d) + 0xCA62C1D6

def stir (s : Words) (entry : UInt32 × Nat) : Words :=
  ⟨rotateLeft s.a 5 + round entry.2 s.b s.c s.d + s.e + entry.1, s.a, rotateLeft s.b 30, s.c, s.d⟩

def block (s : Words) (words : List UInt32) : Words :=
  let t := (schedule words).zipIdx.foldl stir s
  ⟨s.a + t.a, s.b + t.b, s.c + t.c, s.d + t.d, s.e + t.e⟩

/-- Digests whole blocks of sixteen words; `count` is their number. -/
def blocks : (count : Nat) → List UInt32 → Words → Words
  | 0, _, s => s
  | count + 1, words, s => blocks count (words.drop 16) (block s (words.take 16))

def sha1 (message : List UInt8) : List UInt8 :=
  let words := wordsOf (padded message)
  let s := blocks (words.length / 16) words initial
  [s.a, s.b, s.c, s.d, s.e].flatMap fun w => bigEndian 4 w.toNat

end ChipEight.Digest
