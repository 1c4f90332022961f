import ChipEight.Display
import ChipEight.Keypad
import ChipEight.Memory
import ChipEight.Program
import ChipEight.RandomSource

/-!
# The machine

Everything that the emulated computer is made of, together with the random source it draws from.
Once a fault has stopped it, the fault is kept until the machine is reset; the program and the
speed stay what they were when it was built.

What stops a machine is an instruction that means nothing, a call stack used beyond its ends, or an
access outside memory. A fault names the address of the instruction and its word, unless the word
itself could not be fetched.
-/

namespace ChipEight

inductive Cause where
  | unimplemented
  | stackUnderflow
  | stackOverflow
  | memoryAccess
  deriving DecidableEq, Repr

def Cause.description : Cause → String
  | .unimplemented => "unimplemented opcode"
  | .stackUnderflow => "return with empty call stack"
  | .stackOverflow => "call stack overflow"
  | .memoryAccess => "memory access out of range"

structure Fault where
  cause : Cause
  /-- The faulting word; absent when the fetch failed. -/
  word : Option Nat
  pc : Nat
  deriving DecidableEq, Repr

def Fault.message (f : Fault) : String :=
  let word := match f.word with
    | some w => " 0x" ++ Text.hex 4 w
    | none => ""
  f.cause.description ++ word ++ " at pc=" ++ Text.address f.pc

structure Machine (σ : Type) where
  program : Program
  memory : Memory
  display : Display
  keypad : Keypad
  timers : Timers
  registers : Vector UInt8 16
  index : Nat
  pc : Nat
  /-- Return addresses, the latest first. -/
  stack : List Nat
  source : σ
  fault : Option Fault
  /-- How many steps have been completed. -/
  steps : Nat

namespace Machine

variable {σ : Type}

/-- Memory as it is before the first step: the font and the program, else zero. -/
def initialMemory (p : Program) : Memory :=
  (Memory.blank.putAll Font.start Font.bytes).putAll Program.start p.bytes

theorem byte_initialMemory (p : Program) (k : Nat) :
    (initialMemory p).byte k =
      if k < 0x050 then 0
      else if k < 0x200 then Font.bytes[k - 0x050]?.getD 0
      else p.bytes[k - 0x200]?.getD 0 := by
  have hfont : Font.start + Font.bytes.length ≤ 4096 := by decide
  have hfits : Program.start + p.bytes.length ≤ 4096 := by
    have := p.fits
    unfold Program.limit Memory.size Program.start at this
    unfold Program.start
    omega
  rw [initialMemory, Memory.byte_putAll _ hfits, Memory.byte_putAll _ hfont, Memory.byte_blank]
  unfold Program.start Font.start
  by_cases h₁ : k < 0x050
  · rw [if_pos (by omega), if_pos h₁, if_pos h₁]
  · rw [if_neg h₁, if_neg h₁]
    by_cases h₂ : k < 0x200
    · rw [if_pos h₂, if_pos h₂]
    · -- the font ends long before the program
      have hlength : Font.bytes.length = 80 := rfl
      rw [if_neg h₂, if_neg h₂, List.getElem?_eq_none (l := Font.bytes) (by omega)]
      rfl

/-- A machine that has just been switched on. -/
def new (program : Program) (speed : Speed) (source : σ) : Machine σ where
  program := program
  memory := initialMemory program
  display := .blank
  keypad := .idle
  timers := .stopped speed
  registers := Vector.replicate 16 0
  index := 0
  pc := Program.start
  stack := []
  source := source
  fault := none
  steps := 0

def build (image : Image) (speed : Value) (source : σ) : Except SetupError (Machine σ) := do
  let program ← Program.ofImage image
  let speed ← Speed.ofValue speed
  return new program speed source

/-- Starts over with the same program and speed. The random source goes on from where it is. -/
def reset (m : Machine σ) : Machine σ :=
  { m with
    memory := initialMemory m.program
    display := .blank
    keypad := .idle
    timers := m.timers.reset
    registers := Vector.replicate 16 0
    index := 0
    pc := Program.start
    stack := []
    fault := none
    steps := 0 }

def halted (m : Machine σ) : Bool := m.fault.isSome

def summary (m : Machine σ) : String :=
  "Chip8(program=" ++ toString m.program.size ++ " bytes, speed=" ++
    toString m.timers.speed.perSecond ++ ", pc=" ++ Text.address m.pc ++ ", steps=" ++
    toString m.steps ++ ")"

/-- The registers in short. -/
def registerSummary (m : Machine σ) : String :=
  "CPU(pc=" ++ Text.address m.pc ++ ", I=" ++ Text.address m.index ++ ", sp=" ++
    toString m.stack.length ++ ")"

end Machine

end ChipEight
