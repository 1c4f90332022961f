/-!
# Instructions

The instruction set as a type, and the word of each instruction.

Every instruction is one 16-bit word. Its nibbles name the group, up to two registers and a small
number; the lower ones also join to a byte and to an address. A word is taken from any integer by
its low sixteen bits.
-/

namespace ChipEight

/-! ## The fields of a word -/

abbrev Register := Fin 16

abbrev Address := Fin 4096

instance Register.neZero : @NeZero Nat Zero.ofOfNat0 16 := ⟨by decide⟩

structure Fields where
  op : Fin 16
  x : Register
  y : Register
  n : Fin 16
  deriving DecidableEq, Repr

namespace Fields

/-- The nibble whose lowest bit is worth `weight`. -/
def nibble (word weight : Int) : Fin 16 := ⟨(word / weight % 16).toNat, by omega⟩

def ofInt (word : Int) : Fields :=
  ⟨nibble word 4096, nibble word 256, nibble word 16, nibble word 1⟩

/-- The low byte. -/
def nn (f : Fields) : Fin 256 := ⟨16 * f.y + f.n, by omega⟩

/-- The low twelve bits. -/
def nnn (f : Fields) : Address := ⟨256 * f.x + 16 * f.y + f.n, by omega⟩

/-- The word with the given fields. -/
def word (f : Fields) : Nat := 4096 * f.op + 256 * f.x + 16 * f.y + f.n

theorem ofInt_word (f : Fields) : ofInt f.word = f := by
  obtain ⟨op, x, y, n⟩ := f
  simp only [ofInt, nibble, word, Fields.mk.injEq]
  refine ⟨Fin.ext ?_, Fin.ext ?_, Fin.ext ?_, Fin.ext ?_⟩ <;> dsimp only <;> omega

theorem word_ofInt {w : Nat} (h : w < 65536) : (ofInt w).word = w := by
  simp only [ofInt, nibble, word]
  omega

theorem word_lt (f : Fields) : f.word < 65536 := by
  simp only [word]
  omega

/-- The fields of a word whose low byte is `b`. -/
def withByte (op : Fin 16) (x : Register) (b : Fin 256) : Fields :=
  ⟨op, x, ⟨b / 16, by omega⟩, ⟨b % 16, by omega⟩⟩

/-- The fields of a word whose low twelve bits are `a`. -/
def withAddress (op : Fin 16) (a : Address) : Fields :=
  ⟨op, ⟨a / 256, by omega⟩, ⟨a / 16 % 16, by omega⟩, ⟨a % 16, by omega⟩⟩

@[simp] theorem nn_withByte (op : Fin 16) (x : Register) (b : Fin 256) :
    (withByte op x b).nn = b := by
  apply Fin.ext
  simp only [nn, withByte]
  omega

@[simp] theorem nnn_withAddress (op : Fin 16) (a : Address) : (withAddress op a).nnn = a := by
  apply Fin.ext
  simp only [nnn, withAddress]
  omega

end Fields

/-! ## The instruction set -/

/-- When a skip is taken. -/
inductive Condition where
  | equalsByte (x : Register) (b : Fin 256)
  | differsByte (x : Register) (b : Fin 256)
  | equals (x y : Register)
  | differs (x y : Register)
  /-- The key that the low nibble of a register names is down. -/
  | keyDown (x : Register)
  | keyUp (x : Register)
  deriving DecidableEq, Repr

/-- What is computed from two registers. -/
inductive Arithmetic where
  | copy
  | or
  | and
  | xor
  | add
  | subtract
  /-- Half of the second operand. -/
  | shiftRight
  /-- The second operand less the first. -/
  | subtractFrom
  /-- Twice the second operand. -/
  | shiftLeft
  deriving DecidableEq, Repr

inductive Instruction where
  | clear
  | ret
  | jump (target : Address)
  | call (target : Address)
  /-- A jump to an address plus register 0. -/
  | jumpOffset (target : Address)
  | skip (c : Condition)
  | setByte (x : Register) (b : Fin 256)
  | addByte (x : Register) (b : Fin 256)
  | compute (op : Arithmetic) (x y : Register)
  | setIndex (target : Address)
  | addIndex (x : Register)
  /-- Points the index at the sprite of a digit. -/
  | glyph (x : Register)
  | random (x : Register) (mask : Fin 256)
  | draw (x y : Register) (rows : Fin 16)
  | readDelay (x : Register)
  | awaitRelease (x : Register)
  | setDelay (x : Register)
  | setSound (x : Register)
  /-- Writes a register's three decimal digits. -/
  | storeDecimal (x : Register)
  /-- Writes register 0 and up to this one. -/
  | store (x : Register)
  | restore (x : Register)
  deriving DecidableEq, Repr

namespace Arithmetic

/-- The last nibble of the instruction's word. -/
def code : Arithmetic → Nat
  | .copy => 0x0
  | .or => 0x1
  | .and => 0x2
  | .xor => 0x3
  | .add => 0x4
  | .subtract => 0x5
  | .shiftRight => 0x6
  | .subtractFrom => 0x7
  | .shiftLeft => 0xE

end Arithmetic

def Condition.encode : Condition → Nat
  | .equalsByte x b => 0x3000 + 256 * x + b
  | .differsByte x b => 0x4000 + 256 * x + b
  | .equals x y => 0x5000 + 256 * x + 16 * y
  | .differs x y => 0x9000 + 256 * x + 16 * y
  | .keyDown x => 0xE09E + 256 * x
  | .keyUp x => 0xE0A1 + 256 * x

namespace Instruction

/-- Whether a host has to show the display again; only drawing says so. -/
def draws : Instruction → Bool
  | .draw .. => true
  | _ => false

/-- The word of an instruction. -/
def encode : Instruction → Nat
  | .clear => 0x00E0
  | .ret => 0x00EE
  | .jump a => 0x1000 + a
  | .call a => 0x2000 + a
  | .skip c => c.encode
  | .setByte x b => 0x6000 + 256 * x + b
  | .addByte x b => 0x7000 + 256 * x + b
  | .compute op x y => 0x8000 + 256 * x + 16 * y + op.code
  | .setIndex a => 0xA000 + a
  | .jumpOffset a => 0xB000 + a
  | .random x b => 0xC000 + 256 * x + b
  | .draw x y n => 0xD000 + 256 * x + 16 * y + n
  | .readDelay x => 0xF007 + 256 * x
  | .awaitRelease x => 0xF00A + 256 * x
  | .setDelay x => 0xF015 + 256 * x
  | .setSound x => 0xF018 + 256 * x
  | .addIndex x => 0xF01E + 256 * x
  | .glyph x => 0xF029 + 256 * x
  | .storeDecimal x => 0xF033 + 256 * x
  | .store x => 0xF055 + 256 * x
  | .restore x => 0xF065 + 256 * x

open Fields in
/-- The fields of an instruction's word. -/
def fields : Instruction → Fields
  | .clear => withAddress 0x0 0x0E0
  | .ret => withAddress 0x0 0x0EE
  | .jump a => withAddress 0x1 a
  | .call a => withAddress 0x2 a
  | .skip (.equalsByte x b) => withByte 0x3 x b
  | .skip (.differsByte x b) => withByte 0x4 x b
  | .skip (.equals x y) => ⟨0x5, x, y, 0⟩
  | .setByte x b => withByte 0x6 x b
  | .addByte x b => withByte 0x7 x b
  | .compute op x y => ⟨0x8, x, y, Fin.ofNat 16 op.code⟩
  | .skip (.differs x y) => ⟨0x9, x, y, 0⟩
  | .setIndex a => withAddress 0xA a
  | .jumpOffset a => withAddress 0xB a
  | .random x b => withByte 0xC x b
  | .draw x y n => ⟨0xD, x, y, n⟩
  | .skip (.keyDown x) => withByte 0xE x 0x9E
  | .skip (.keyUp x) => withByte 0xE x 0xA1
  | .readDelay x => withByte 0xF x 0x07
  | .awaitRelease x => withByte 0xF x 0x0A
  | .setDelay x => withByte 0xF x 0x15
  | .setSound x => withByte 0xF x 0x18
  | .addIndex x => withByte 0xF x 0x1E
  | .glyph x => withByte 0xF x 0x29
  | .storeDecimal x => withByte 0xF x 0x33
  | .store x => withByte 0xF x 0x55
  | .restore x => withByte 0xF x 0x65

theorem encode_eq_word (i : Instruction) : i.encode = i.fields.word := by
  cases i with
  | compute op x y =>
    cases op <;> simp only [encode, fields, Fields.word, Arithmetic.code, Fin.ofNat] <;> omega
  | skip c =>
    cases c <;>
      simp only [encode, Condition.encode, fields, Fields.withByte, Fields.word] <;> omega
  | _ =>
    simp only [encode, fields, Fields.withByte, Fields.withAddress, Fields.word]
    omega

end Instruction

end ChipEight
