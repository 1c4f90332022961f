import ChipEight.Text.Numeral

/-!
# Memory

4096 bytes under the addresses 0 to 4095. Addresses are not masked: the host names them by any
integer, and one that is not an address is refused, with nothing changed. Every operation checks
the ends of what it touches before it touches anything.

At the low end lies the font: the sixteen hexadecimal digits as sprites, four cells wide and five
rows high, one byte a row.
-/

namespace ChipEight

structure Memory where
  bytes : Vector UInt8 4096

/-- Why an access is refused: one address that does not exist, or a block `[start, stop)` that
does not fit. -/
inductive MemoryError where
  | address (addr : Int)
  | block (start stop : Int)
  deriving DecidableEq, Repr

def MemoryError.message : MemoryError → String
  | .address addr => "address 0x" ++ Text.hex 0 addr ++ " outside address space"
  | .block start stop =>
    "block [" ++ Text.address start ++ ", " ++ Text.address stop ++ ") outside address space"

/-- What is kept of a number in a byte. -/
theorem toNat_ofInt (n : Int) : ((UInt8.ofInt n).toNat : Int) = n % 256 := by
  rw [UInt8.ofInt, UInt8.toNat_ofNat']
  omega

namespace Memory

def size : Nat := 4096

/-- All bytes zero. -/
def blank : Memory := ⟨Vector.replicate 4096 0⟩

/-- The byte at an address; past the last address there is only zero. -/
def byte (m : Memory) (addr : Nat) : UInt8 := m.bytes[addr]?.getD 0

/-- Replaces one byte; past the last address nothing changes. -/
def put (m : Memory) (addr : Nat) (b : UInt8) : Memory := ⟨m.bytes.setIfInBounds addr b⟩

/-- Replaces consecutive bytes from `addr` on. -/
def putAll (m : Memory) (addr : Nat) : List UInt8 → Memory
  | [] => m
  | b :: bs => (m.put addr b).putAll (addr + 1) bs

/-! ## Checked access -/

def check (addr : Int) : Except MemoryError Unit :=
  if 0 ≤ addr ∧ addr.toNat < size then .ok () else .error (.address addr)

/-- The first and the last address of a range are checked; an empty range needs neither. -/
def checkRange (addr length : Int) : Except MemoryError Unit := do
  if length ≠ 0 then
    check addr
    check (addr + length - 1)

def read (m : Memory) (addr : Int) : Except MemoryError UInt8 := do
  check addr
  return m.byte addr.toNat

/-- Stores the low eight bits of `value`. -/
def write (m : Memory) (addr value : Int) : Except MemoryError Memory := do
  check addr
  return m.put addr.toNat (UInt8.ofInt value)

/-- Copies `data` into memory from `offset` on, all of it or nothing. -/
def load (m : Memory) (offset : Int) (data : List UInt8) : Except MemoryError Memory :=
  if offset < 0 ∨ size < offset.toNat + data.length then
    .error (.block offset (offset + data.length))
  else
    .ok (m.putAll offset.toNat data)

/-- The bytes from `addr` on; a negative length that passes the check gives none. -/
def readBlock (m : Memory) (addr length : Int) : Except MemoryError (List UInt8) := do
  checkRange addr length
  return (m.bytes.extract addr.toNat (addr + length).toNat).toList

/-- The two bytes at `addr` as one word, the more significant byte first. -/
def fetchWord (m : Memory) (addr : Int) : Except MemoryError Nat := do
  check addr
  check (addr + 1)
  return 256 * (m.byte addr.toNat).toNat + (m.byte (addr.toNat + 1)).toNat

def summary : String := "Memory(size=" ++ toString size ++ ")"

/-! ## What a write leaves behind -/

@[simp] theorem byte_blank (k : Nat) : blank.byte k = 0 := by
  unfold byte blank
  by_cases h : k < 4096 <;> simp [h]

theorem byte_put (m : Memory) {addr : Nat} (h : addr < 4096) (b : UInt8) (k : Nat) :
    (m.put addr b).byte k = if k = addr then b else m.byte k := by
  unfold byte put
  by_cases hk : addr = k
  · subst hk; simp [h]
  · simp [hk, Ne.symm hk]

theorem byte_putAll_of_outside (m : Memory) {addr k : Nat} {bs : List UInt8}
    (h : k < addr ∨ addr + bs.length ≤ k) : (m.putAll addr bs).byte k = m.byte k := by
  induction bs generalizing m addr with
  | nil => rfl
  | cons b bs ih =>
    simp only [List.length_cons] at h
    rw [putAll, ih _ (by omega)]
    by_cases ha : addr < 4096
    · rw [byte_put m ha, if_neg (by omega)]
    · unfold byte put
      rw [Vector.setIfInBounds_eq_of_size_le (by omega)]

theorem byte_putAll_of_inside (m : Memory) {addr i : Nat} {bs : List UInt8}
    (h : addr + bs.length ≤ 4096) (hi : i < bs.length) :
    (m.putAll addr bs).byte (addr + i) = bs[i] := by
  induction bs generalizing m addr i with
  | nil => simp at hi
  | cons b bs ih =>
    simp only [List.length_cons] at h hi
    cases i with
    | zero =>
      rw [putAll, byte_putAll_of_outside _ (by omega), Nat.add_zero, byte_put m (by omega),
        if_pos rfl, List.getElem_cons_zero]
    | succ i =>
      rw [putAll, show addr + (i + 1) = addr + 1 + i by omega, ih _ (by omega) (by omega),
        List.getElem_cons_succ]

/-- Consecutive bytes replaced, address by address. -/
theorem byte_putAll (m : Memory) {addr : Nat} {bs : List UInt8} (h : addr + bs.length ≤ 4096)
    (k : Nat) :
    (m.putAll addr bs).byte k = if k < addr then m.byte k else bs[k - addr]?.getD (m.byte k) := by
  by_cases hk : k < addr
  · rw [if_pos hk, byte_putAll_of_outside m (.inl hk)]
  · rw [if_neg hk]
    by_cases hlen : k - addr < bs.length
    · rw [List.getElem?_eq_getElem hlen, Option.getD_some, ← byte_putAll_of_inside m h hlen]
      congr 1
      omega
    · rw [List.getElem?_eq_none (by omega), Option.getD_none,
        byte_putAll_of_outside m (by omega)]

/-- A block of bytes that exist, one by one. -/
theorem extract_toList (m : Memory) {addr n : Nat} (h : addr + n ≤ 4096) :
    (m.bytes.extract addr (addr + n)).toList = (List.range n).map fun k => m.byte (addr + k) := by
  apply List.ext_getElem
  · simp; omega
  · intro k h₁ h₂
    have hk : addr + k < 4096 := by
      simp at h₂
      omega
    simp [byte, hk]

/-- Memory is its bytes: two memories that agree at every address are the same. -/
theorem ext_byte {m m' : Memory} (h : ∀ k, k < 4096 → m.byte k = m'.byte k) : m = m' := by
  cases m with | mk v => cases m' with | mk v' =>
  congr 1
  apply Vector.ext
  intro k hk
  simpa [byte, hk] using h k hk

end Memory

/-! ## The font -/

namespace Font

def start : Nat := 0x050

/-- Rows, and therefore bytes, of one digit. -/
def glyphSize : Nat := 5

def bytes : List UInt8 := [
  0xF0, 0x90, 0x90, 0x90, 0xF0,
  0x20, 0x60, 0x20, 0x20, 0x70,
  0xF0, 0x10, 0xF0, 0x80, 0xF0,
  0xF0, 0x10, 0xF0, 0x10, 0xF0,
  0x90, 0x90, 0xF0, 0x10, 0x10,
  0xF0, 0x80, 0xF0, 0x10, 0xF0,
  0xF0, 0x80, 0xF0, 0x90, 0xF0,
  0xF0, 0x10, 0x20, 0x40, 0x40,
  0xF0, 0x90, 0xF0, 0x90, 0xF0,
  0xF0, 0x90, 0xF0, 0x10, 0xF0,
  0xF0, 0x90, 0xF0, 0x90, 0x90,
  0xE0, 0x90, 0xE0, 0x90, 0xE0,
  0xF0, 0x80, 0x80, 0x80, 0xF0,
  0xE0, 0x90, 0x90, 0x90, 0xE0,
  0xF0, 0x80, 0xF0, 0x80, 0xF0,
  0xF0, 0x80, 0xF0, 0x80, 0x80]

/-- The first address after the font. -/
def stop : Nat := start + bytes.length

/-- Where the sprite of a digit starts. A number that is no digit points past the font. -/
def glyphAddress (digit : Int) : Int := start + glyphSize * digit

end Font

end ChipEight
