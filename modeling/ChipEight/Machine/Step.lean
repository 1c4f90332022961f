import ChipEight.Instruction.Decode
import ChipEight.Machine.Basic

/-!
# Instructions and steps

An instruction is executed while `pc` still holds its own address. It either gives the machine
after it or a cause of failure; every check comes before the first change, so a failing
instruction has no effect.

Where dialects differ: shifts take the second register and leave the first bit shifted out in the
flag register; storing and restoring registers leave the index alone; the index wraps at twelve
bits when a register is added, and only then is the flag set.

A step ticks the timers, executes the instruction at `pc` and empties the slot of the key released
last, in this order. It reports whether a host has to show the display again. A fault leaves the
machine as it was before the instruction and stops it: from then on every step reports the same
fault and does nothing else.

A frame is a fixed number of steps, cut short by a fault.
-/

namespace ChipEight

/-- The register that receives carries and collisions. -/
def flagRegister : Register := 15

/-- How many return addresses the call stack holds. -/
def stackDepth : Nat := 16

def flag (b : Bool) : UInt8 := if b then 1 else 0

namespace Arithmetic

/-- The result, given the values of both registers. -/
def result (op : Arithmetic) (a b : UInt8) : UInt8 :=
  match op with
  | .copy => b
  | .or => a ||| b
  | .and => a &&& b
  | .xor => a ^^^ b
  | .add => a + b
  | .subtract => a - b
  | .shiftRight => b >>> 1
  | .subtractFrom => b - a
  | .shiftLeft => b <<< 1

/-- What the flag register receives after the result, if anything: a carry, the absence of a
borrow, or the bit shifted out. -/
def flag? (op : Arithmetic) (a b : UInt8) : Option Bool :=
  match op with
  | .copy | .or | .and | .xor => none
  | .add => some (255 < a.toNat + b.toNat)
  | .subtract => some (b ≤ a)
  | .shiftRight => some (b.toNat.testBit 0)
  | .subtractFrom => some (a ≤ b)
  | .shiftLeft => some (b.toNat.testBit 7)

end Arithmetic

/-- The decimal digits of a byte, hundreds first. -/
def decimalDigits (b : UInt8) : List UInt8 := [b / 100, b / 10 % 10, b % 10]

theorem toNat_digits (b : UInt8) :
    (b / 100).toNat = b.toNat / 100 ∧ (b / 10 % 10).toNat = b.toNat / 10 % 10 ∧
      (b % 10).toNat = b.toNat % 10 := by
  have ht : (b / 10 % 10).toNat = b.toNat / 10 % 10 := by
    rw [UInt8.toNat_mod, UInt8.toNat_div]
    rfl
  exact ⟨UInt8.toNat_div b 100, ht, UInt8.toNat_mod b 10⟩

namespace Machine

variable {σ : Type}

def register (m : Machine σ) (x : Register) : UInt8 := m.registers[x]

/-- Sets one register and goes on to the next instruction. -/
def setRegister (m : Machine σ) (x : Register) (b : UInt8) : Machine σ :=
  { m with registers := m.registers.set x b, pc := m.pc + 2 }

/-- Whether a condition holds. -/
def holds (m : Machine σ) : Condition → Bool
  | .equalsByte x b => (m.register x).toNat = b
  | .differsByte x b => (m.register x).toNat ≠ b
  | .equals x y => m.register x = m.register y
  | .differs x y => m.register x ≠ m.register y
  | .keyDown x => m.keypad.isDown (Fin.ofNat 16 (m.register x).toNat)
  | .keyUp x => !m.keypad.isDown (Fin.ofNat 16 (m.register x).toNat)

/-- The registers after an arithmetic instruction: first the result, then the flag. -/
def computed (m : Machine σ) (op : Arithmetic) (x y : Register) : Vector UInt8 16 :=
  let a := m.register x
  let b := m.register y
  let registers := m.registers.set x (op.result a b)
  match op.flag? a b with
  | some bit => registers.set flagRegister (flag bit)
  | none => registers

/-- The registers with the first ones, up to `x`, read from memory. -/
def restored (m : Machine σ) (x : Register) : Vector UInt8 16 :=
  Vector.ofFn fun r => if r ≤ x then m.memory.byte (m.index + r) else m.register r

/-- A refused access, seen from an instruction. -/
def reaching {α : Type} (access : Except MemoryError α) : Except Cause α :=
  access.mapError fun _ => .memoryAccess

variable [RandomSource σ]

def execute (m : Machine σ) : Instruction → Except Cause (Machine σ)
  | .clear => return { m with display := .blank, pc := m.pc + 2 }
  | .ret =>
    match m.stack with
    | [] => .error .stackUnderflow
    | a :: rest => .ok { m with pc := a, stack := rest }
  | .jump a => return { m with pc := a }
  | .call a =>
    if m.stack.length < stackDepth then
      .ok { m with pc := a, stack := (m.pc + 2) :: m.stack }
    else
      .error .stackOverflow
  | .jumpOffset a => return { m with pc := a + (m.register 0).toNat }
  | .skip c => return { m with pc := if m.holds c then m.pc + 4 else m.pc + 2 }
  | .setByte x b => return m.setRegister x (UInt8.ofNat b)
  | .addByte x b => return m.setRegister x (m.register x + UInt8.ofNat b)
  | .compute op x y => return { m with registers := m.computed op x y, pc := m.pc + 2 }
  | .setIndex a => return { m with index := a, pc := m.pc + 2 }
  | .addIndex x =>
    let total := m.index + (m.register x).toNat
    if Memory.size ≤ total then
      return { m.setRegister flagRegister 1 with index := total % Memory.size }
    else
      return { m with index := total, pc := m.pc + 2 }
  | .glyph x =>
    return { m with index := (Font.glyphAddress (m.register x).toNat).toNat, pc := m.pc + 2 }
  | .random x mask =>
    let (b, source) := RandomSource.next m.source
    return { m.setRegister x (b &&& UInt8.ofNat mask) with source := source }
  | .draw x y rows => do
    let sprite ← reaching (m.memory.readBlock m.index rows.val)
    let (display, collision) := m.display.draw (m.register x).toNat (m.register y).toNat sprite
    return { m.setRegister flagRegister (flag collision) with display := display }
  | .readDelay x => return m.setRegister x (UInt8.ofInt m.timers.delay)
  | .awaitRelease x =>
    match m.keypad.released with
    | some key => return m.setRegister x (UInt8.ofNat key)
    | none => return m
  | .setDelay x =>
    return { m with timers := { m.timers with delay := (m.register x).toNat }, pc := m.pc + 2 }
  | .setSound x =>
    return { m with timers := { m.timers with sound := (m.register x).toNat }, pc := m.pc + 2 }
  | .storeDecimal x => do
    reaching (Memory.checkRange m.index 3)
    let memory := m.memory.putAll m.index (decimalDigits (m.register x))
    return { m with memory := memory, pc := m.pc + 2 }
  | .store x => do
    reaching (Memory.checkRange m.index (x.val + 1))
    let memory := m.memory.putAll m.index (m.registers.toList.take (x + 1))
    return { m with memory := memory, pc := m.pc + 2 }
  | .restore x => do
    reaching (Memory.checkRange m.index (x.val + 1))
    return { m with registers := m.restored x, pc := m.pc + 2 }

end Machine

/-! ## Steps and frames -/

namespace Machine

variable {σ : Type} [RandomSource σ]

/-- Fetches, decodes and executes the instruction at `pc`. -/
def cycle (m : Machine σ) : Except Fault (Machine σ × Bool) :=
  match m.memory.fetchWord m.pc with
  | .error _ => .error ⟨.memoryAccess, none, m.pc⟩
  | .ok word =>
    match Instruction.decode? word with
    | none => .error ⟨.unimplemented, some word, m.pc⟩
    | some instruction =>
      match m.execute instruction with
      | .error cause => .error ⟨cause, some word, m.pc⟩
      | .ok m' => .ok (m', instruction.draws)

def tick (m : Machine σ) : Machine σ := { m with timers := m.timers.tick.1 }

def step (m : Machine σ) : Machine σ × Except Fault Bool :=
  match m.fault with
  | some f => (m, .error f)
  | none =>
    let m := m.tick
    match m.cycle with
    | .ok (m', redraw) =>
      ({ m' with keypad := m'.keypad.consume, steps := m'.steps + 1 }, .ok redraw)
    | .error f => ({ m with keypad := m.keypad.consume, fault := some f }, .error f)

/-- At most `n` steps, up to the first fault; `redraw` says whether an earlier step asked for the
display to be shown. -/
def runSteps (n : Nat) (redraw : Bool) (m : Machine σ) : Machine σ × Except Fault Bool :=
  match n with
  | 0 => (m, .ok redraw)
  | n + 1 =>
    match m.step with
    | (m', .ok now) => m'.runSteps n (redraw || now)
    | (m', .error f) => (m', .error f)

/-- One of `fps` frames a second. -/
def frame (m : Machine σ) (fps : Nat) : Machine σ × Except Fault Bool :=
  m.runSteps (m.timers.speed.stepsPerFrame fps) false

end Machine

end ChipEight
